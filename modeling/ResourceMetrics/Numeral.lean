import ResourceMetrics.Utf8

/-!
A numeral is an optional plus sign and at least one ASCII digit, with a value below a limit.
Digits are read from the left, so the first digit that makes the value too large is reported
unless something that is no digit stands before it.
-/

namespace ResourceMetrics

inductive NumeralError
  | empty
  | invalidDigit
  | tooLarge
  deriving Repr, DecidableEq

def NumeralError.message : NumeralError → String
  | .empty => "cannot parse integer from empty string"
  | .invalidDigit => "invalid digit found in string"
  | .tooLarge => "number too large to fit in target type"

namespace Numeral

def digit? (c : Char) : Option Nat :=
  if '0' ≤ c ∧ c ≤ '9' then some (c.toNat - '0'.toNat) else none

/-- Reads digits onto the value of those before them. -/
def readDigits (limit : Nat) : Nat → Text → Except NumeralError Nat
  | value, [] => .ok value
  | value, c :: cs =>
    match digit? c with
    | none => .error .invalidDigit
    | some d =>
      if value * 10 + d < limit then readDigits limit (value * 10 + d) cs else .error .tooLarge

def read (limit : Nat) : Text → Except NumeralError Nat
  | [] => .error .empty
  | '+' :: c :: cs => readDigits limit 0 (c :: cs)
  | cs => readDigits limit 0 cs

def read64 (t : Text) : Except NumeralError UInt64 := (read UInt64.size t).map UInt64.ofNat

def read32 (t : Text) : Except NumeralError UInt32 := (read UInt32.size t).map UInt32.ofNat

def write (n : Nat) : Text := Nat.toDigits 10 n

end Numeral

end ResourceMetrics
