import PipelineLens.Json.Basic
/-!
# JSON as written

The structure of a JSON text before its parts are judged: repeated fields are kept, a number out of
range and a string with an unpaired surrogate stand as parts without a value. A reader that skips a
part does not mind them; `Written.value?` reads all and does. It also limits nesting: containers may
stand `depthLimit - 1` deep.
-/
namespace PipelineLens.Json

/-- A JSON text, parsed but not judged. -/
inductive Written where
  | null
  | bool (value : Bool)
  /-- nothing for a number too large for a double -/
  | number (value : Option Number)
  /-- nothing for a string with an unpaired surrogate -/
  | string (text : Option String)
  | array (items : List Written)
  /-- every field in the order written, repeats included -/
  | object (fields : List (Option String × Written))
deriving Inhabited

/-- A container at this depth is refused. -/
def depthLimit : Nat := 128

namespace Written

mutual

/-- The value, when every part has one and fewer than `room` containers stand inside each other.
-/
def value? (room : Nat) : Written → Option Json
  | null => some .null
  | bool b => some (.bool b)
  | number n => n.map .number
  | string s => s.map .string
  | array items => if room < 2 then none else (values? (room - 1) items).map .array
  | object fields => if room < 2 then none else (fields? (room - 1) fields).map ofFields

def values? (room : Nat) : List Written → Option (List Json)
  | [] => some []
  | w :: ws => do
    let v ← value? room w
    let vs ← values? room ws
    some (v :: vs)

def fields? (room : Nat) : List (Option String × Written) → Option (List (String × Json))
  | [] => some []
  | (key, w) :: ws => do
    let k ← key
    let v ← value? room w
    let vs ← fields? room ws
    some ((k, v) :: vs)

end

end Written

end PipelineLens.Json
