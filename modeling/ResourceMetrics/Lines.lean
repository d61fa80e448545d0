import ResourceMetrics.Utf8

/-!
A line ends at a newline byte or at the end of the file; the newline is not part of it. A file
that ends in a newline has no further, empty line.
-/

namespace ResourceMetrics

def newline : UInt8 := 0x0A

def lines : Bytes → List Bytes
  | [] => []
  | b :: bs =>
    let rest := lines bs
    if b = newline then [] :: rest else (b :: rest.headD []) :: rest.tail

end ResourceMetrics
