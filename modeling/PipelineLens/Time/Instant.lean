import PipelineLens.Time.Calendar
/-!
# Moments and timestamps

An `Instant` is a day, a second of the day and the nanoseconds into that second, in universal time.
A leap second has no number of its own: it is the second 59 with a second or more of nanoseconds.
`read?` accepts the timestamps of RFC 3339, as in `2021-01-01T00:03:30.5+02:00`.
-/
namespace PipelineLens

structure Instant where
  /-- days from 1 January 1970 -/
  day : Int
  /-- seconds from midnight, less than 86400 -/
  second : Nat
  /-- nanoseconds, less than two seconds -/
  nano : Nat
deriving DecidableEq, Repr

namespace Instant

/-- The moment this many seconds after the start of 1970, and some nanoseconds. -/
def ofSeconds (seconds : Int) (nano : Nat) : Instant :=
  ⟨seconds / 86400, (seconds % 86400).toNat, nano⟩

/-- The moment this many milliseconds after the start of 1970. -/
def ofMillis (ms : Int) : Instant := ofSeconds (ms / 1000) ((ms % 1000).toNat * 1000000)

def epoch : Instant := ⟨0, 0, 0⟩

/-- The seconds that a leap second at one of two moments adds to the time between them. -/
def leapBetween (start stop : Instant) : Int :=
  if start.second < stop.second ∧ 1000000000 ≤ start.nano then 1
  else if stop.second < start.second ∧ 1000000000 ≤ stop.nano then -1
  else 0

/-- The nanoseconds from one moment to another. -/
def nanosBetween (start stop : Instant) : Int :=
  let seconds := (stop.day - start.day) * 86400 + ((stop.second : Int) - start.second)
    + leapBetween start stop
  seconds * 1000000000 + ((stop.nano : Int) - start.nano)

/-- The whole milliseconds from one moment to another. -/
def millisBetween (start stop : Instant) : Int := (nanosBetween start stop).tdiv 1000000

/-! ## Timestamps -/

def digit? (c : Char) : Option Nat :=
  if '0' ≤ c ∧ c ≤ '9' then some (c.toNat - '0'.toNat) else none

/-- The number that the first `count` characters write in decimal, and the rest. -/
def number? (value : Nat) : (count : Nat) → List Char → Option (Nat × List Char)
  | 0, cs => some (value, cs)
  | _ + 1, [] => none
  | count + 1, c :: cs => do
    number? (10 * value + (← digit? c)) count cs

/-- What follows a character at the start of the text that is one of `marks`. -/
def mark? (marks : List Char) : List Char → Option (List Char)
  | [] => none
  | c :: cs => if c ∈ marks then some cs else none

/-- A fraction of a second in nanoseconds; digits after the ninth do not count. -/
def fraction? : List Char → Option (Nat × List Char)
  | '.' :: cs =>
    let digits := cs.takeWhile fun c => (digit? c).isSome
    if digits.isEmpty then none
    else do
      let (nano, _) ← number? 0 9 (digits ++ List.replicate (9 - digits.length) '0')
      some (nano, cs.dropWhile fun c => (digit? c).isSome)
  | cs => some (0, cs)

/-- The seconds that local time is ahead of universal time: a letter for none, or signed hours and
minutes, at the end of the text. -/
def zone? : List Char → Option Int
  | ['Z'] => some 0
  | ['z'] => some 0
  | sign :: cs => do
    let (hours, cs) ← number? 0 2 cs
    let (minutes, rest) ← number? 0 2 (← mark? [':'] cs)
    if rest ≠ [] ∨ 23 < hours ∨ 59 < minutes then none
    else
      let seconds : Int := (hours * 60 + minutes : Nat) * 60
      if sign = '+' then some seconds
      else if sign = '-' ∨ sign = '\u2212' then some (-seconds)
      else none
  | [] => none

/-- The moment that a timestamp names. -/
def read? (text : String) : Option Instant := do
  let (year, cs) ← number? 0 4 text.toList
  let (month, cs) ← number? 0 2 (← mark? ['-'] cs)
  let (day, cs) ← number? 0 2 (← mark? ['-'] cs)
  let (hour, cs) ← number? 0 2 (← mark? ['T', 't', ' '] cs)
  let (minute, cs) ← number? 0 2 (← mark? [':'] cs)
  let (second, cs) ← number? 0 2 (← mark? [':'] cs)
  let (nano, cs) ← fraction? cs
  let ahead ← zone? cs
  if !Calendar.isDate year month day ∨ 23 < hour ∨ 59 < minute ∨ 60 < second then none
  else
    let clock : Int := (hour * 60 + minute : Nat) * 60 + (min second 59 : Nat)
    let leap := if second = 60 then 1000000000 else 0
    some (ofSeconds (Calendar.dayNumber year month day * 86400 + clock - ahead) (nano + leap))

end Instant

end PipelineLens
