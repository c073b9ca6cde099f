import PipelineLens.Json.Basic
/-!
# Numbers in JSON text

A numeral without fraction and exponent is a whole number as long as it fits 64 bits. Any other is
a double: the digits that fit 64 bits, scaled by one power of ten at a time.
-/
namespace PipelineLens.Json

/-- A number as written: its sign, the digits before and after the point, and the sign and digits of
its exponent. -/
structure Numeral where
  negative : Bool
  whole : List Char
  fraction : List Char
  exponent : Option (Bool × List Char)

namespace Numeral

/-- The largest number of 64 bits. -/
def wordMax : Nat := 0xFFFFFFFFFFFFFFFF

/-- The largest exponent that is told apart from an infinite one. -/
def exponentMax : Nat := 0x7FFFFFFF

/-- `n` followed by as many of the digits as fit a word, and the digits left over. -/
def absorb (n : Nat) : List Char → Nat × List Char
  | [] => (n, [])
  | c :: cs =>
    let next := 10 * n + (c.toNat - '0'.toNat)
    if wordMax < next then (n, c :: cs) else absorb next cs

def power10 (e : Nat) : Float := Binary64.nearest (Nat.pow 10 e)

/-- `x` divided by `10 ^ e`, by at most `10 ^ 308` at a time. -/
def shrink (x : Float) (e : Nat) : Float :=
  if e ≤ 308 then x / power10 e
  else if x == 0 then x
  else shrink (x / power10 308) (e - 308)
termination_by e
decreasing_by omega

/-- `significand * 10 ^ e` as a double, unless that is too large. -/
def scaled? (significand : Nat) (e : Int) : Option Float :=
  let x := significand.toUInt64.toFloat
  if e < 0 then some (shrink x (-e).toNat)
  else if 308 < e then (if x == 0 then some x else none)
  else
    let y := x * power10 e.toNat
    if y.isInf then none else some y

/-- The double that the digits and the exponent give. -/
def float? (n : Numeral) : Option Float :=
  let (head, dropped) := absorb 0 n.whole
  let (significand, rest) := absorb head n.fraction
  let shift : Int := dropped.length - (n.fraction.length - rest.length : Nat)
  match n.exponent with
  | none => scaled? significand shift
  | some (down, digits) =>
    let e := digitsValue digits
    if exponentMax < e then (if significand = 0 ∨ down then some 0 else none)
    else scaled? significand (if down then shift - e else shift + e)

/-- The number, unless it is too large for a double. Zero with a sign is a double. -/
def value? (n : Numeral) : Option Number :=
  let plain := n.fraction.isEmpty && n.exponent.isNone
  let whole := digitsValue n.whole
  if plain ∧ n.negative = false ∧ whole ≤ wordMax then some (.int whole)
  else if plain ∧ n.negative ∧ whole ≠ 0 ∧ whole ≤ 0x8000000000000000 then some (.int (-whole))
  else n.float?.map fun x => .float (Binary64.ofFloat (if n.negative then -x else x))

end Numeral

end PipelineLens.Json
