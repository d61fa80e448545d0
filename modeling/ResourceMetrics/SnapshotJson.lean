import ResourceMetrics.Numeral
import ResourceMetrics.ShortestDecimal
import ResourceMetrics.Snapshot

/-!
A snapshot is written as one object without spaces, its fields in declaration order. A load is
written in its shortest decimal form: in plain notation from `1e-5` up to below `1e16`, always
with a point, and else with a signed exponent. A load that is not finite is `null`.
-/

namespace ResourceMetrics

/-- The smallest power of ten that is written in plain notation. -/
def plainFrom : Int := -5

/-- The smallest power of ten that no longer is. -/
def plainBelow : Int := 16

namespace SnapshotJson

def zeros (n : Nat) : Text := List.replicate n '0'

/-- Plain notation of a decimal whose first digit stands for the given power of ten. -/
def plain (digits : Text) (power : Int) : Text :=
  match power with
  | .negSucc n => '0' :: '.' :: zeros n ++ digits
  | .ofNat n =>
    let whole := digits.take (n + 1)
    let fraction := digits.drop (n + 1)
    whole ++ zeros (n + 1 - whole.length) ++ '.' ::
      (if fraction.isEmpty then zeros 1 else fraction)

/-- Notation with an exponent, its sign always written. -/
def scientific (digits : Text) (power : Int) : Text :=
  let fraction := digits.drop 1
  digits.take 1 ++ (if fraction.isEmpty then [] else '.' :: fraction) ++
    'e' :: (if power < 0 then '-' else '+') :: Numeral.write power.natAbs

def decimal (d : Decimal) : Text :=
  let digits := Numeral.write d.digits
  let power := d.exponent + (digits.length : Int) - 1
  if plainFrom ≤ power ∧ power < plainBelow then plain digits power else scientific digits power

def magnitude (p : BinaryParts) : Text :=
  if p.mantissa = 0 then "0.0".toList else decimal (ShortestDecimal.ofParts p)

def load (x : Binary64) : Text :=
  if x.isFinite then (if x.isNegative then ['-'] else []) ++ magnitude x.parts
  else "null".toList

def integer (n : Int) : Text :=
  (if n < 0 then ['-'] else []) ++ Numeral.write n.natAbs

def boolean (b : Bool) : Text := (if b then "true" else "false").toList

def fields (s : Snapshot Binary64) : List (String × Text) :=
  [("container_present", boolean s.containerPresent),
   ("available_processors", Numeral.write s.availableProcessors.toNat),
   ("total_swap_space_size", integer s.totalSwap),
   ("free_swap_space_size", integer s.freeSwap),
   ("total_physical_memory_size", integer s.totalMemory),
   ("free_physical_memory_size", integer s.freeMemory),
   ("system_cpu_load", load s.load),
   ("process_cpu_load", load s.processLoad),
   ("process_cpu_time", integer s.processTime),
   ("committed_virtual_memory_size", integer s.committedMemory),
   ("open_file_descriptor_count", integer s.openDescriptors),
   ("max_file_descriptor_count", integer s.maxDescriptors)]

def field (f : String × Text) : Text := '"' :: f.1.toList ++ '"' :: ':' :: f.2

def write (s : Snapshot Binary64) : Text :=
  '\x7b' :: [','].intercalate ((fields s).map field) ++ ['\x7d']

end SnapshotJson

end ResourceMetrics
