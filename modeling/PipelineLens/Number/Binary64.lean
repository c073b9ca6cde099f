import PipelineLens.Number.Decimal
/-!
# Binary floating point numbers of 64 bits

A `Binary64` is its bits. A finite one is `mantissa * 2 ^ scale`, and the reals nearest to it form
an interval around it. `shortest` is the decimal with the fewest digits in that interval, and of
those the one nearest to the number.
-/
namespace PipelineLens

structure Binary64 where
  bits : UInt64
deriving DecidableEq, Repr

namespace Binary64

def ofFloat (x : Float) : Binary64 := ⟨x.toBits⟩

def toFloat (x : Binary64) : Float := Float.ofBits x.bits

/-- The biased exponent of the number, 0 for the subnormal ones. -/
def exponentField (x : Binary64) : Nat := ((x.bits >>> 52) &&& 0x7FF).toNat

/-- The bits below the exponent. -/
def fraction (x : Binary64) : Nat := (x.bits &&& 0xFFFFFFFFFFFFF).toNat

def isNegative (x : Binary64) : Bool := x.bits >>> 63 = 1

/-- Neither infinite nor not a number. -/
def isFinite (x : Binary64) : Bool := x.exponentField ≠ 0x7FF

def isNaN (x : Binary64) : Bool := x.exponentField = 0x7FF && x.fraction ≠ 0

/-- The bits of a number equal to this one: of the positive zero for both, and one choice for all
that are not a number. -/
def commonBits (x : Binary64) : UInt64 :=
  if x.isNaN then 0x7FF8000000000000
  else if x.bits &&& 0x7FFFFFFFFFFFFFFF = 0 then 0
  else x.bits

/-- The number without its sign is `mantissa * 2 ^ scale`. -/
def mantissa (x : Binary64) : Nat :=
  if x.exponentField = 0 then x.fraction else 0x10000000000000 + x.fraction

def scale (x : Binary64) : Int := (if x.exponentField = 0 then 1 else x.exponentField) - 1075

/-- The interval of the reals that round to a number, with the number in it, over one denominator.
-/
structure Rounding where
  lower : Nat
  value : Nat
  upper : Nat
  denominator : Nat
  /-- whether the two ends round to the number themselves -/
  ends : Bool

/-- The interval of a finite number. Below a power of two the neighbour is half as far away, unless
it is subnormal. -/
def rounding (x : Binary64) : Rounding :=
  let m := x.mantissa
  let unit := Nat.pow 2 x.scale.toNat
  let below := if x.fraction = 0 ∧ 1 < x.exponentField then 1 else 2
  { lower := (4 * m - below) * unit
    value := 4 * m * unit
    upper := (4 * m + 2) * unit
    denominator := 4 * Nat.pow 2 (-x.scale).toNat
    ends := m % 2 = 0 }

namespace Rounding

/-- The place of the leading digit of the number, plus one. -/
def point (r : Rounding) : Int :=
  if r.denominator ≤ r.value then (Nat.toDigits 10 (r.value / r.denominator)).length
  else
    let inverse := (r.denominator + r.value - 1) / r.value
    if inverse ≤ 1 then 1 else 1 - (Nat.toDigits 10 (inverse - 1)).length

/-- Whether `d` rounds to the number. -/
def holds (r : Rounding) (d : Decimal) : Bool :=
  let up := Nat.pow 10 d.exponent.toNat * r.denominator
  let down := Nat.pow 10 (-d.exponent).toNat
  let n := d.digits * up
  if r.ends then r.lower * down ≤ n && n ≤ r.upper * down
  else r.lower * down < n && n < r.upper * down

/-- The two neighbours of the number among the multiples of `10 ^ exponent`, the lower one first,
each with its distance in units that depend on the exponent alone. -/
def neighbours (r : Rounding) (exponent : Int) : List (Decimal × Nat) :=
  let up := Nat.pow 10 exponent.toNat * r.denominator
  let n := r.value * Nat.pow 10 (-exponent).toNat
  let low := n / up
  [(⟨low, exponent⟩, n - low * up), (⟨low + 1, exponent⟩, (low + 1) * up - n)]

/-- The nearest multiple of `10 ^ exponent` that rounds to the number; of two the even one. -/
def onGrid? (r : Rounding) (exponent : Int) : Option Decimal :=
  match (r.neighbours exponent).filter fun d => r.holds d.1 with
  | [] => none
  | [(d, _)] => some d
  | (d, near) :: (e, far) :: _ =>
    if near < far then some d
    else if far < near then some e
    else if d.digits % 2 = 0 then some d else some e

/-- The first of the grids with up to `count` digits that has a multiple in the interval. -/
def search (r : Rounding) (count : Nat) : Option Decimal :=
  let point := r.point
  (List.range count).findSome? fun (n : Nat) => r.onGrid? (point - (n + 1))

end Rounding

/-- The decimal with the fewest digits that rounds to `x`, which is finite. Seventeen digits are
always enough. -/
def shortest (x : Binary64) : Decimal :=
  if x.mantissa = 0 then ⟨0, 0⟩
  else
    match x.rounding.search 17 with
    | some d => .reduced d.digits d.exponent
    | none => ⟨0, 0⟩

/-- The text of a finite number. -/
def render (layout : NumberLayout) (x : Binary64) : List Char :=
  (if x.isNegative then ['-'] else []) ++ x.shortest.render layout

/-- The double nearest to a whole number. Of the bits after the leading 64 it only matters whether
one of them is set. -/
def nearest (n : Nat) : Float :=
  if n < 0x10000000000000000 then n.toUInt64.toFloat
  else if 1024 ≤ n.log2 then 1 / 0
  else
    let excess := n.log2 - 63
    let head := n >>> excess
    let head := if head <<< excess = n then head else head ||| 1
    head.toUInt64.toFloat * Float.ofBits (.ofNat ((1023 + excess) <<< 52))

/-- The number nearest to a decimal, infinite when the decimal is too large. -/
def ofDecimal (negative : Bool) (d : Decimal) : Binary64 :=
  let size : Int := d.figures.length + d.exponent
  let magnitude : Float :=
    if d.digits = 0 ∨ size < -400 then 0
    else if 400 < size then 1 / 0
    else if 0 ≤ d.exponent then nearest (d.digits * Nat.pow 10 d.exponent.toNat)
    else Float.ofScientific d.digits true (-d.exponent).toNat
  ofFloat (if negative then -magnitude else magnitude)

end Binary64

end PipelineLens
