import PipelineLens.Number.Binary64
import PipelineLens.Time.Instant
/-!
# Clock readings

A clock counts the milliseconds from the start of 1970 in a double. Parts of a millisecond do not
count, and a reading outside the calendar counts as the start of 1970.
-/
namespace PipelineLens

namespace Binary64

/-- A finite number without its fraction. -/
def truncated (x : Binary64) : Int :=
  let size := x.mantissa * Nat.pow 2 x.scale.toNat / Nat.pow 2 (-x.scale).toNat
  if x.isNegative then -size else size

end Binary64

namespace Instant

/-- The milliseconds of the years that the calendar has: from -262143 to 262142. -/
def inCalendar (ms : Int) : Bool := -8334601228800000 ≤ ms && ms ≤ 8210266876799999

/-- The moment that a clock shows. -/
def ofClock (reading : Binary64) : Instant :=
  if reading.isFinite && inCalendar reading.truncated then ofMillis reading.truncated else epoch

end Instant

end PipelineLens
