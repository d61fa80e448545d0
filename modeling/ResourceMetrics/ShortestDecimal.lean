import ResourceMetrics.Binary64

/-!
The shortest decimals of doubles: among those that read back as a given double the ones with the
fewest digits, and of them the nearest to it. A positive finite double is `m · 2 ^ q`; the numbers
that read back as it lie between the midpoints to its neighbours, the midpoints included exactly if
`m` is even. For one digit, two digits and so on, the two points next to the double on the decimal
grid with that many digits are tried; seventeen digits always suffice.
-/

namespace ResourceMetrics

/-- The number `digits · 10 ^ exponent`. -/
structure Decimal where
  digits : Nat
  exponent : Int
  deriving Repr, DecidableEq

/-- The number `mantissa · 2 ^ exponent`, with the mantissa of a positive finite double. -/
structure BinaryParts where
  mantissa : Nat
  exponent : Int
  deriving Repr, DecidableEq

namespace Binary64

def isNegative (x : Binary64) : Bool := 0x8000000000000000 ≤ x.bits

/-- How many fractions 52 bits can hold. -/
def fractions : Nat := 0x10000000000000

/-- How many exponents 11 bits can hold; the last one is for what is not finite. -/
def exponents : Nat := 0x800

def exponentBits (x : Binary64) : Nat := x.bits.toNat / fractions % exponents

def fractionBits (x : Binary64) : Nat := x.bits.toNat % fractions

def isFinite (x : Binary64) : Bool := x.exponentBits != exponents - 1

/-- The magnitude of a finite double; the mantissa is zero for a zero. -/
def parts (x : Binary64) : BinaryParts :=
  if x.exponentBits = 0 then ⟨x.fractionBits, -1074⟩
  else ⟨fractions + x.fractionBits, (x.exponentBits : Int) - 1075⟩

end Binary64

namespace ShortestDecimal

/-- A fraction of natural numbers. -/
structure Fraction where
  num : Nat
  den : Nat

/-- The fraction `n · base ^ exponent`. -/
def scaled (n base : Nat) (exponent : Int) : Fraction :=
  match exponent with
  | .ofNat e => ⟨n * Nat.pow base e, 1⟩
  | .negSucc e => ⟨n, Nat.pow base (e + 1)⟩

def Fraction.le (x y : Fraction) : Bool := x.num * y.den ≤ y.num * x.den

def Fraction.lt (x y : Fraction) : Bool := x.num * y.den < y.num * x.den

/-- The numbers that read back as a double: four times its mantissa is the unit, so that the
midpoints are whole numbers. Below a power of two the neighbour is nearer. -/
structure Interval where
  lower : Nat
  upper : Nat
  closed : Bool
  exponent : Int

def interval (p : BinaryParts) : Interval where
  lower := 4 * p.mantissa - (if p.mantissa = Binary64.fractions ∧ -1074 < p.exponent then 1 else 2)
  upper := 4 * p.mantissa + 2
  closed := p.mantissa % 2 = 0
  exponent := p.exponent - 2

def Interval.contains (i : Interval) (d : Decimal) : Bool :=
  let x := scaled d.digits 10 d.exponent
  let lower := scaled i.lower 2 i.exponent
  let upper := scaled i.upper 2 i.exponent
  if i.closed then lower.le x && x.le upper else lower.lt x && x.lt upper

/-- The largest exponent for which `10 ^ exponent` is not above the fraction, looked for downwards
from the given one. -/
def leadingExponent (x : Fraction) : Nat → Int → Int
  | 0, e => e
  | n + 1, e => if (scaled 1 10 e).le x then e else leadingExponent x n (e - 1)

/-- The grid point at or below a fraction, on the grid of multiples of `10 ^ exponent`. -/
def floorOn (x : Fraction) (exponent : Int) : Decimal :=
  let unit := scaled 1 10 exponent
  ⟨x.num * unit.den / (x.den * unit.num), exponent⟩

/-- Whether the point above is nearer than the given one; at the same distance the one with an
even digit is. -/
def upperIsNearer (x : Fraction) (d : Decimal) : Bool :=
  let middle := scaled (2 * d.digits + 1) 10 d.exponent
  let twice : Fraction := ⟨2 * x.num, x.den⟩
  middle.lt twice || (middle.le twice && d.digits % 2 = 1)

/-- The nearer of the two points next to a fraction that are in the interval. -/
def onGrid? (i : Interval) (x : Fraction) (exponent : Int) : Option Decimal :=
  let low := floorOn x exponent
  let high : Decimal := ⟨low.digits + 1, exponent⟩
  match i.contains low, i.contains high with
  | true, true => some (if upperIsNearer x low then high else low)
  | true, false => some low
  | false, true => some high
  | false, false => none

/-- Tries ever finer grids; after the last one the point below is taken. -/
def search (i : Interval) (x : Fraction) : Nat → Int → Decimal
  | 0, exponent => floorOn x exponent
  | n + 1, exponent => (onGrid? i x exponent).getD (search i x n (exponent - 1))

/-- Moves zeros at the end of the digits into the exponent. -/
def normalize : Nat → Decimal → Decimal
  | 0, d => d
  | n + 1, d =>
    if d.digits % 10 = 0 && d.digits != 0 then normalize n ⟨d.digits / 10, d.exponent + 1⟩ else d

/-- The shortest decimal of a positive finite double. -/
def ofParts (p : BinaryParts) : Decimal :=
  let x := scaled p.mantissa 2 p.exponent
  normalize 20 (search (interval p) x 17 (leadingExponent x 640 309))

end ShortestDecimal

end ResourceMetrics
