import PipelineLens.Data
import PipelineLens.Json.Written
/-!
# Records in JSON

A record is an object, whose further fields are ignored, or an array of the fields in their order,
from which fields at the end may be left out. In JSON text a field of the record must not be
repeated, and every key must have a value; parts of it know how deep they stand.
-/
namespace PipelineLens.Json

variable {α : Type}

/-- The elements of an array as the fields of a record with `count` fields. -/
def positional? (count : Nat) (items : List α) : Option (List (Option α)) :=
  if count < items.length then none
  else some (items.map some ++ List.replicate (count - items.length) none)

instance : Data Json where
  isNull := isNull
  flag?
    | bool b => some b
    | _ => none
  count?
    | number (.int n) => n.toNat?
    | _ => none
  text? := string?
  list?
    | array items => some items
    | _ => none
  record? names
    | object fields => some (names.map (lookup fields))
    | array items => positional? names.length items
    | _ => none
  entries?
    | object fields => some fields
    | _ => none
  json? := some

/-- A part of a JSON text inside which fewer than `room` containers may stand in each other. -/
structure Part where
  value : Written
  room : Nat

namespace Part

/-- A whole text. -/
def whole (value : Written) : Part := ⟨value, depthLimit⟩

/-- What a container holds, when there is room for one. -/
def inside? (p : Part) (contents : List α) : Option (List α) :=
  if p.room < 2 then none else some contents

def inner (p : Part) (value : Written) : Part := ⟨value, p.room - 1⟩

/-- The values under a key. -/
def under (fields : List (String × Part)) (key : String) : List Part :=
  (fields.filter fun f => f.1 = key).map (·.2)

/-- The one value under a key, if there is one; nothing at all for a repeated key. -/
def once? (fields : List (String × Part)) (key : String) : Option (Option Part) :=
  match under fields key with
  | [] => some none
  | [p] => some (some p)
  | _ => none

/-- The fields of an object, when every key has a value. -/
def keyed? (p : Part) (fields : List (Option String × Written)) : Option (List (String × Part)) :=
  fields.mapM fun f => f.1.map (·, p.inner f.2)

end Part

instance : Data Part where
  isNull p :=
    match p.value with
    | .null => true
    | _ => false
  flag? p :=
    match p.value with
    | .bool b => some b
    | _ => none
  count? p :=
    match p.value with
    | .number (some (.int n)) => n.toNat?
    | _ => none
  text? p :=
    match p.value with
    | .string s => s
    | _ => none
  list? p :=
    match p.value with
    | .array items => p.inside? (items.map p.inner)
    | _ => none
  record? names p :=
    match p.value with
    | .object fields => do
      let keyed ← p.keyed? (← p.inside? fields)
      names.mapM (Part.once? keyed)
    | .array items => do
      positional? names.length ((← p.inside? items).map p.inner)
    | _ => none
  entries? p :=
    match p.value with
    | .object fields => do
      p.keyed? (← p.inside? fields)
    | _ => none
  json? p := p.value.value? p.room

end PipelineLens.Json
