import PipelineLens.Number.Decimal
import PipelineLens.Number.Digit
/-!
# Whole numbers in text

A signed whole number of 64 bits in decimal: an optional sign and at least one digit.
-/
namespace PipelineLens

/-- The value of one or more decimal digits. -/
def natural? (cs : List Char) : Option Nat :=
  if !cs.isEmpty && cs.all isDigit then some (digitsValue cs) else none

/-- `n`, when it fits 64 bits with a sign. -/
def signedWord? (n : Int) : Option Int :=
  if -0x8000000000000000 ≤ n ∧ n ≤ 0x7FFFFFFFFFFFFFFF then some n else none

/-- The number that the text writes. -/
def whole? : List Char → Option Int
  | '-' :: cs => (natural? cs).bind fun n => signedWord? (-n)
  | '+' :: cs => (natural? cs).bind fun n => signedWord? n
  | cs => (natural? cs).bind fun n => signedWord? n

end PipelineLens
