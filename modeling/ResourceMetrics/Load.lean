import ResourceMetrics.Counter

/-!
A load is the part of some elapsed capacity that was used. It is computed in a `LoadScale`:
exactly in the rationals, or rounded in the numbers that are reported. A load from counters is
measured between two samples of them and is clamped to the unit interval.
-/

namespace ResourceMetrics

/-- Numbers that loads are computed in. -/
class LoadScale (α : Type) extends Add α, Div α, LT α where
  ofNat : Nat → α
  /-- The number -1, reported for a load that cannot be determined. -/
  unknown : α
  decidableLT : DecidableLT α

instance LoadScale.instDecidableLT {α : Type} [LoadScale α] : DecidableLT α :=
  LoadScale.decidableLT

instance : LoadScale Rat where
  ofNat n := n
  unknown := -1
  decidableLT := inferInstance

namespace Load

variable {α : Type} [LoadScale α]

def zero : α := LoadScale.ofNat 0

def one : α := LoadScale.ofNat 1

/-- Brings a number into the unit interval. -/
def clamp (x : α) : α :=
  let x := if x < zero then zero else x
  if one < x then one else x

/-- The clamped ratio of two amounts. -/
def ratio (used elapsed : Counter) : α :=
  clamp (LoadScale.ofNat used.toNat / LoadScale.ofNat elapsed.toNat)

/-- The mean of loads with the given sum. -/
def mean (sum : α) (count : Nat) : α := sum / LoadScale.ofNat count

end Load

end ResourceMetrics
