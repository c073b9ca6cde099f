import Std.Data.TreeMap.Basic
import PipelineLens.Yaml.Scalar
/-!
# When two values are the same

Values get numbers, the same number for values that are the same and for no others. The shape of a
value is what makes it that value, with the numbers of its parts in place of the parts: its kind,
the items of a sequence in their order, the entries of a mapping in whatever order.
-/
namespace PipelineLens.Yaml

inductive Shape where
  | null
  | bool (value : Bool)
  | int (value : Int)
  | float (bits : UInt64)
  | text (value : String)
  | sequence (items : List Nat)
  /-- the entries ordered by the numbers of their keys -/
  | mapping (keys values : List Nat)
  | tagged (tag : String) (value : Nat)
deriving Ord

namespace Shape

/-- The shape of a scalar. All that are not a number are the same, and so are the two zeros. -/
def ofScalar : Scalar → Shape
  | .null => null
  | .bool b => bool b
  | .number (.int n) => int n
  | .number (.float x) => float x.commonBits
  | .text s => text s

/-- The shape of a mapping, unless a key occurs twice. -/
def ofEntries? (entries : List (Nat × Nat)) : Option Shape :=
  let table := Std.TreeMap.ofList entries
  if table.size = entries.length then some (mapping table.keys table.values) else none

end Shape

/-- The numbers of the shapes known so far. -/
abbrev Numbering := Std.TreeMap Shape Nat

/-- The number of a shape, the next one if it is new. -/
def Numbering.number (shape : Shape) : StateT Numbering Option Nat := do
  let known ← get
  match known[shape]? with
  | some n => return n
  | none =>
    let n := known.size
    set (known.insert shape n)
    return n

end PipelineLens.Yaml
