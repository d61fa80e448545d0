import ResourceMetrics.Load

/-!
A double is kept as its 64 bits, so that every one of them can be passed on unchanged. Finite
arithmetic is that of `Float`. An operand that is not a number is passed on with its quiet bit
set, the left one of two; an operation that has no value answers the quiet one with sign bit.
-/

namespace ResourceMetrics

structure Binary64 where
  bits : UInt64
  deriving Repr, DecidableEq

namespace Binary64

def toFloat (x : Binary64) : Float := Float.ofBits x.bits

/-- Not a number: all exponent bits are set and some bit of the fraction. -/
def isNaN (x : Binary64) : Bool := 0x7FF0000000000000 < (x.bits &&& 0x7FFFFFFFFFFFFFFF)

def quiet (x : Binary64) : Binary64 := ⟨x.bits ||| 0x0008000000000000⟩

def indefinite : Binary64 := ⟨0xFFF8000000000000⟩

/-- Lifts an operation on floats, with the rule for operands that are not numbers. -/
def lift (op : Float → Float → Float) (x y : Binary64) : Binary64 :=
  if x.isNaN then x.quiet
  else if y.isNaN then y.quiet
  else if (op x.toFloat y.toFloat).isNaN then indefinite
  else ⟨(op x.toFloat y.toFloat).toBits⟩

instance : Add Binary64 := ⟨lift (· + ·)⟩

instance : Div Binary64 := ⟨lift (· / ·)⟩

instance : LT Binary64 := ⟨fun x y => x.toFloat < y.toFloat⟩

instance : DecidableLT Binary64 := fun x y => inferInstanceAs (Decidable (x.toFloat < y.toFloat))

instance : LoadScale Binary64 where
  ofNat n := ⟨(Float.ofNat n).toBits⟩
  unknown := ⟨0xBFF0000000000000⟩
  decidableLT := inferInstance

end Binary64

end ResourceMetrics
