import PipelineLens.Error
/-!
# Lines, columns and offsets

A `LineTable` holds the length and the start of every line of a text, in characters or in UTF-16
code units. It takes a line and a column to an offset and back: `offset?` answers for exactly the
places inside a line or at its end, and `position?`, which searches the starts of the lines, for
exactly the offsets up to the length of the text.
-/
namespace PipelineLens

/-- What offsets and columns count. -/
inductive TextUnit where
  | char
  | utf16
deriving DecidableEq, Repr

namespace TextUnit

/-- How many units `c` takes. -/
def width : TextUnit → Char → Nat
  | char, _ => 1
  | utf16, c => if c.toNat < 0x10000 then 1 else 2

end TextUnit

/-- A line and a column, both counted from zero. -/
structure Position where
  line : Nat
  column : Nat
deriving DecidableEq, Repr

/-- The offsets at which lines of the given lengths start, the first of them at `start`. -/
def lineStarts (start : Nat) : List Nat → List Nat
  | [] => []
  | n :: ns => start :: lineStarts (start + n + 1) ns

/-- The lines of a text. -/
structure LineTable where
  /-- the length of every line; the line feed that ends a line is not part of it -/
  lengths : List Nat
  /-- the offset at which every line starts -/
  starts : Array Nat
  starts_eq : starts.toList = lineStarts 0 lengths
deriving DecidableEq, Repr

namespace LineTable

/-- The lengths of the lines of `cs`. There is always a last line, which may be empty. -/
def measure (unit : TextUnit) : List Char → List Nat
  | [] => [0]
  | c :: cs =>
    if c = '\n' then 0 :: measure unit cs
    else
      match measure unit cs with
      | [] => [unit.width c]
      | n :: ns => (unit.width c + n) :: ns

def ofLengths (lengths : List Nat) : LineTable := ⟨lengths, (lineStarts 0 lengths).toArray, rfl⟩

def ofText (unit : TextUnit) (text : String) : LineTable := ofLengths (measure unit text.toList)

def lineCount (t : LineTable) : Nat := t.lengths.length

/-- The length of the text. -/
def size (t : LineTable) : Nat :=
  match t.starts.back?, t.lengths.getLast? with
  | some start, some n => start + n
  | _, _ => 0

def isEmpty (t : LineTable) : Bool := t.size = 0

/-- The offset of a line and a column. -/
def offset? (t : LineTable) (line column : Nat) : Except Error Nat :=
  match t.starts[line]?, t.lengths[line]? with
  | some start, some n =>
    if column ≤ n then .ok (start + column) else .error (.position line column)
  | _, _ => .error (.position line column)

/-! ## The line of an offset -/

/-- The first index from `lo` on whose entry does not satisfy `p`, at most `hi`. It is found by
halving: the entries that satisfy `p` have to stand before the others. -/
def borderFrom (p : Nat → Bool) (xs : Array Nat) (lo hi : Nat) : Nat :=
  if lo < hi then
    if xs[(lo + hi) / 2]?.any p then borderFrom p xs ((lo + hi) / 2 + 1) hi
    else borderFrom p xs lo ((lo + hi) / 2)
  else lo
termination_by hi - lo

theorem borderFrom_eq {p : Nat → Bool} {xs : Array Nat} {lo hi k : Nat} (hlo : lo ≤ k)
    (hhi : k ≤ hi) (hbelow : ∀ i < k, xs[i]?.any p = true)
    (habove : ∀ i < hi, k ≤ i → xs[i]?.any p = false) :
    borderFrom p xs lo hi = k := by
  fun_induction borderFrom p xs lo hi with
  | case1 lo hi hlt hmid ih =>
    refine ih (Nat.lt_of_not_le fun hle => ?_) hhi habove
    have := habove ((lo + hi) / 2) (by omega) hle
    rw [hmid] at this
    cases this
  | case2 lo hi hlt hmid ih =>
    refine ih hlo (Nat.le_of_not_lt fun hlt => ?_) fun i hi => habove i (by omega)
    exact hmid (hbelow _ hlt)
  | case3 lo hi hge => omega

/-- How many lines start at `offset` or before it. -/
def startsUpTo (t : LineTable) (offset : Nat) : Nat :=
  borderFrom (· ≤ offset) t.starts 0 t.starts.size

/-- The line and column of an offset. -/
def position? (t : LineTable) (offset : Nat) : Except Error Position :=
  if t.size < offset then .error (.offset offset)
  else
    let line := t.startsUpTo offset - 1
    .ok ⟨line, offset - t.starts.getD line 0⟩

end LineTable

end PipelineLens
