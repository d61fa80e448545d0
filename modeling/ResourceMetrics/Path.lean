import ResourceMetrics.Utf8

/-!
A path is a byte string, cut at its slashes into segments. Its components are the root if it
starts with a slash, a leading `.` of a relative path, and the segments other than the empty one
and `.`; `..` is a component like any name. One path strips off the front of another if its
components do, and the remainder keeps the other path's own spelling.
-/

namespace ResourceMetrics

abbrev Path := Bytes

def slash : UInt8 := 0x2F

inductive Component
  | root
  | here
  | name (segment : Bytes)
  deriving Repr, DecidableEq

namespace Path

def ofString (s : String) : Path := Utf8.encode s.toList

/-- A path as messages show it. -/
def display (p : Path) : String := String.ofList (Utf8.decodeLossy p)

def here : Bytes := [0x2E]

def parent : Bytes := [0x2E, 0x2E]

def segments (p : Path) : List Bytes := p.splitOn slash

/-- Whether a segment inside a path counts: the empty one and `.` do not. -/
def isName (segment : Bytes) : Bool := !(segment.isEmpty || segment == here)

def isAbsolute (p : Path) : Bool := p.head? == some slash

/-- What comes before the names. -/
def anchor (p : Path) : List Component :=
  if p.isAbsolute then [.root] else if p.segments.head? = some here then [.here] else []

def names (p : Path) : List Bytes := p.segments.filter isName

def components (p : Path) : List Component := p.anchor ++ p.names.map .name

/-- Joins segments with slashes. -/
def ofSegments (segments : List Bytes) : Path := [slash].intercalate segments

/-- Drops the segments at the end that do not count. -/
def trimTail (segments : List Bytes) : List Bytes :=
  (segments.reverse.dropWhile (!isName ·)).reverse

/-- Drops segments up to and including the given number of names. -/
def dropNames : Nat → List Bytes → List Bytes
  | 0, segments => segments
  | _ + 1, [] => []
  | n + 1, s :: rest => if isName s then dropNames n rest else dropNames (n + 1) rest

/-- A whole path without the slashes and dots at its end. -/
def trimmed (p : Path) : Path :=
  match p.anchor with
  | [] => ofSegments (trimTail p.segments)
  | _ :: _ => p.take 1 ++ ofSegments (trimTail (segments (p.drop 1)))

/-- What is left of a path once as many names as in the stem are gone. The empty stem takes
nothing away, not even the root. -/
def remainder (stem p : Path) : Path :=
  if stem.components.isEmpty then p.trimmed
  else ofSegments (trimTail ((dropNames stem.names.length p.segments).dropWhile (!isName ·)))

/-- The path below the stem, if the components of the stem come first. -/
def strip? (stem p : Path) : Option Path :=
  if stem.components.isPrefixOf p.components then some (remainder stem p) else none

/-- A path seen from a directory: an absolute one stands for itself. -/
def join (dir p : Path) : Path :=
  if p.isAbsolute then p
  else if dir.isEmpty || dir.getLast? == some slash then dir ++ p
  else dir ++ slash :: p

end Path

end ResourceMetrics
