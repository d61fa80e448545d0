import ResourceMetrics.Utf8

/-!
Blanks are the characters with the Unicode property `White_Space`. Text is trimmed of them and
split at them into words.
-/

namespace ResourceMetrics

/-- The code points with the property `White_Space`, as closed ranges. -/
def blankRanges : List (Nat × Nat) :=
  [(0x09, 0x0D), (0x20, 0x20), (0x85, 0x85), (0xA0, 0xA0), (0x1680, 0x1680), (0x2000, 0x200A),
   (0x2028, 0x2029), (0x202F, 0x202F), (0x205F, 0x205F), (0x3000, 0x3000)]

def isBlank (c : Char) : Bool :=
  blankRanges.any fun r => r.1 ≤ c.toNat && c.toNat ≤ r.2

namespace Text

def trimStart (t : Text) : Text := t.dropWhile isBlank

def trimEnd (t : Text) : Text := (t.reverse.dropWhile isBlank).reverse

def trim (t : Text) : Text := trimEnd (trimStart t)

/-- The maximal blank-free pieces, in order. -/
def words (t : Text) : List Text := (t.splitOnP isBlank).filter (!·.isEmpty)

/-- Splits at the first occurrence of a character, which belongs to neither side. -/
def cut? (sep : Char) : Text → Option (Text × Text)
  | [] => none
  | c :: cs =>
    if c = sep then some ([], cs) else (cut? sep cs).map fun p => (c :: p.1, p.2)

/-- What follows the last occurrence of a character. -/
def afterLast? (sep : Char) : Text → Option Text
  | [] => none
  | c :: cs =>
    match afterLast? sep cs with
    | some rest => some rest
    | none => if c = sep then some cs else none

end Text

end ResourceMetrics
