import ResourceMetrics.Utf8

/-!
A mount table writes a blank or backslash of a path as a backslash and three octal digits of a
byte. Anything else after a backslash is kept as it stands. Decoding works on bytes and is then
read as text again, with a replacement character where the bytes are not valid UTF-8.
-/

namespace ResourceMetrics

namespace MountEscape

def backslash : UInt8 := 0x5C

def isOctal (digit : UInt8) : Bool := 0x30 ≤ digit && digit ≤ 0x37

/-- Whether three bytes are the octal digits of a byte. -/
def isEscape (high middle low : UInt8) : Bool :=
  high ≤ 0x33 && isOctal high && isOctal middle && isOctal low

def value (high middle low : UInt8) : UInt8 :=
  (high - 0x30) * 64 + (middle - 0x30) * 8 + (low - 0x30)

def decodeBytes : Bytes → Bytes
  | b :: high :: middle :: low :: rest =>
    if b = backslash && isEscape high middle low then value high middle low :: decodeBytes rest
    else b :: decodeBytes (high :: middle :: low :: rest)
  | b :: rest => b :: decodeBytes rest
  | [] => []

/-- Decodes a field of a mount table. -/
def decode (field : Text) : Text := Utf8.decodeLossy (decodeBytes (Utf8.encode field))

end MountEscape

end ResourceMetrics
