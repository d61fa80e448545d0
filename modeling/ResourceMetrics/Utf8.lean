/-!
File contents and paths are lists of bytes, text is a list of characters. `Utf8.scan` reads UTF-8
one byte at a time and answers one entry for each character and one gap for each maximal piece
that cannot be completed to a character; strict and lossy decoding differ only in what they make
of a gap.
-/

namespace ResourceMetrics

abbrev Bytes := List UInt8

abbrev Text := List Char

namespace Utf8

/-- The front of a character: the bits read so far, how many bytes follow the next one, and the
range in which the next byte has to lie. -/
structure Partial where
  value : Nat
  later : Nat
  low : UInt8
  high : UInt8
  deriving Repr, DecidableEq

/-- What one byte leads to: a finished character, a gap, or a character still open. -/
inductive Step
  | emit (c : Option Char)
  | more (p : Partial)

/-- The step of a byte that no open character claims. The narrower ranges after `E0`, `ED`, `F0`
and `F4` keep out overlong forms, surrogates and values above `10FFFF`. -/
def start (b : UInt8) : Step :=
  if b < 0x80 then .emit (some (Char.ofNat b.toNat))
  else if b < 0xC2 then .emit none
  else if b < 0xE0 then .more ⟨b.toNat - 0xC0, 0, 0x80, 0xBF⟩
  else if b < 0xF0 then
    .more ⟨b.toNat - 0xE0, 1, if b = 0xE0 then 0xA0 else 0x80, if b = 0xED then 0x9F else 0xBF⟩
  else if b < 0xF5 then
    .more ⟨b.toNat - 0xF0, 2, if b = 0xF0 then 0x90 else 0x80, if b = 0xF4 then 0x8F else 0xBF⟩
  else .emit none

def Partial.accepts (p : Partial) (b : UInt8) : Bool := p.low ≤ b && b ≤ p.high

/-- The step of a byte that the open character accepts. -/
def Partial.feed (p : Partial) (b : UInt8) : Step :=
  let value := p.value * 64 + (b.toNat - 0x80)
  match p.later with
  | 0 => .emit (some (Char.ofNat value))
  | later + 1 => .more ⟨value, later, 0x80, 0xBF⟩

/-- Scans with a character open or not. A byte that the open character refuses ends it in a gap
and is looked at afresh. -/
def scanFrom : Option Partial → Bytes → List (Option Char)
  | none, [] => []
  | some _, [] => [none]
  | none, b :: bs =>
    match start b with
    | .emit c => c :: scanFrom none bs
    | .more p => scanFrom (some p) bs
  | some p, b :: bs =>
    if p.accepts b then
      match p.feed b with
      | .emit c => c :: scanFrom none bs
      | .more q => scanFrom (some q) bs
    else
      none ::
        match start b with
        | .emit c => c :: scanFrom none bs
        | .more q => scanFrom (some q) bs

/-- The characters of a byte string, with a gap for each maximal invalid piece. -/
def scan (bs : Bytes) : List (Option Char) := scanFrom none bs

/-- The text that the bytes spell, if they are valid UTF-8. -/
def decode? (bs : Bytes) : Option Text := (scan bs).mapM id

/-- What stands for bytes that are no character. -/
def replacement : Char := '\uFFFD'

/-- The text that the bytes spell, each gap shown as the replacement character. -/
def decodeLossy (bs : Bytes) : Text := (scan bs).map (·.getD replacement)

def encode (t : Text) : Bytes := t.flatMap String.utf8EncodeChar

end Utf8

end ResourceMetrics
