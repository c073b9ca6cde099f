/-!
# Decimal numbers

A `Decimal` is a whole number of units, each a power of ten. `NumberLayout` says how one is written:
positionally when its leading digit stands at a place between two bounds, with an exponent
otherwise.
-/
namespace PipelineLens

/-- The number `digits * 10 ^ exponent`. -/
structure Decimal where
  digits : Nat
  exponent : Int
deriving DecidableEq, Repr

/-- The value of a row of decimal digits. -/
def digitsValue (cs : List Char) : Nat := cs.foldl (fun n c => 10 * n + (c.toNat - '0'.toNat)) 0

/-- Where a number stops being written positionally. Places are powers of ten: the leading digit of
`120` stands at place 2, that of `0.05` at place -2. -/
structure NumberLayout where
  /-- the lowest place of the leading digit that is written positionally -/
  lowest : Int
  /-- the highest such place -/
  highest : Int
deriving DecidableEq, Repr

namespace Decimal

/-- `digits * 10 ^ exponent` without zeros at the end of the digits. -/
def reduced (digits : Nat) (exponent : Int) : Decimal :=
  if digits ≠ 0 ∧ digits % 10 = 0 then reduced (digits / 10) (exponent + 1) else ⟨digits, exponent⟩
termination_by digits
decreasing_by omega

/-- The digits as characters. -/
def figures (d : Decimal) : List Char := Nat.toDigits 10 d.digits

/-- The place of the leading digit. -/
def place (d : Decimal) : Int := d.figures.length + d.exponent - 1

/-- All digits in their places, with at least one digit on each side of the point. -/
def positional (d : Decimal) : List Char :=
  let ds := d.figures
  let point := d.place + 1
  if 0 ≤ d.exponent then ds ++ List.replicate d.exponent.toNat '0' ++ ['.', '0']
  else if 0 < point then ds.take point.toNat ++ '.' :: ds.drop point.toNat
  else ['0', '.'] ++ List.replicate (-point).toNat '0' ++ ds

/-- One digit before the point, and the place of that digit as a signed exponent. -/
def scientific (d : Decimal) : List Char :=
  let tail := d.figures.drop 1
  let point := if tail.isEmpty then [] else '.' :: tail
  let sign := if 0 ≤ d.place then '+' else '-'
  d.figures.take 1 ++ point ++ ['e', sign] ++ Nat.toDigits 10 d.place.natAbs

/-- The number as `layout` has it. -/
def render (layout : NumberLayout) (d : Decimal) : List Char :=
  if layout.lowest ≤ d.place ∧ d.place ≤ layout.highest then d.positional else d.scientific

end Decimal

end PipelineLens
