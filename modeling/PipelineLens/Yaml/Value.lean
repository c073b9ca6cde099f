import PipelineLens.Data
import PipelineLens.Yaml.Shape
import PipelineLens.Yaml.Walk
/-!
# YAML values

A value keeps its own tags and its entries in their order, and no two keys of a mapping are the
same. Typed values are read from it without regard to the tags, and null stands for an empty list,
table or record as well. Collections know what they are in JSON, so that those that many places
share are turned into it once.
-/
namespace PipelineLens.Yaml

inductive Value where
  | scalar (value : Scalar)
  /-- items with what they are in JSON, if they have a place there; `ofItems` makes both agree -/
  | sequence (items : List Value) (json : Option Json)
  /-- entries with what they are in JSON, as made by `ofEntries` -/
  | mapping (entries : List (Value × Value)) (json : Option Json)
  | tagged (tag : String) (value : Value)
deriving Inhabited

namespace Value

/-- The value without its tags. -/
def untagged : Value → Value
  | tagged _ v => untagged v
  | v => v

def text? (v : Value) : Option String :=
  match v.untagged with
  | scalar (.text s) => some s
  | _ => none

/-- The value as JSON. Tags are refused, and so are keys other than texts. -/
def json? : Value → Option Json
  | scalar s => some s.toJson
  | sequence _ json => json
  | mapping _ json => json
  | tagged .. => none

def ofItems (items : List Value) : Value := sequence items ((items.mapM json?).map .array)

/-- A field of an object. -/
def field? (entry : Value × Value) : Option (String × Json) := do
  some (← entry.1.text?, ← entry.2.json?)

def ofEntries (entries : List (Value × Value)) : Value :=
  mapping entries ((entries.mapM field?).map .ofFields)

/-! ## The value of a text -/

/-- A value with its number. -/
structure Numbered where
  number : Nat
  value : Value

namespace Numbered

/-- A value of this shape. -/
def ofShape (shape : Shape) (value : Value) : StateT Numbering Option Numbered := do
  return ⟨← Numbering.number shape, value⟩

/-- A value with its tag, if that is of the text's own. -/
def underTag (tag : Option Tag) (v : Numbered) : StateT Numbering Option Numbered :=
  match Tag.ownName? tag with
  | some name => ofShape (.tagged name v.number) (tagged name v.value)
  | none => return v

/-- The tag of a text's own says nothing about the scalar that has it. -/
def reading : Reading Numbering Numbered where
  scalar tag plain text := do
    let s ← Scalar.read? (if (Tag.ownName? tag).isSome then none else tag) plain text
    underTag tag (← ofShape (.ofScalar s) (.scalar s))
  sequence tag items := do
    let shape := .sequence (items.map (·.number))
    underTag tag (← ofShape shape (.ofItems (items.map (·.value))))
  mapping tag entries := do
    let shape ← Shape.ofEntries? (entries.map fun e => (e.1.number, e.2.number))
    underTag tag (← ofShape shape (.ofEntries (entries.map fun e => (e.1.value, e.2.value))))

end Numbered

/-- The value of a text. -/
def read? (text : String) : Option Value := do
  let root ← Node.read? text
  let v ← Numbered.reading.document? ∅ root
  some v.value

/-! ## Typed reading -/

/-- Whether the value is this text. -/
def isText (v : Value) (text : String) : Bool :=
  match v.untagged with
  | scalar (.text s) => s = text
  | _ => false

/-- The entries of a mapping all of whose keys are texts. -/
def fields? (v : Value) : Option (List (Value × Value)) :=
  match v.untagged with
  | mapping entries _ => if entries.all fun e => e.1.text?.isSome then some entries else none
  | scalar .null => some []
  | _ => none

/-- The one value under a key, if there is one; nothing at all for a repeated key. -/
def once? (fields : List (Value × Value)) (key : String) : Option (Option Value) :=
  match fields.filter fun f => f.1.isText key with
  | [] => some none
  | [f] => some (some f.2)
  | _ => none

/-- The value under a key of a mapping. The key has no tag. -/
def under? (v : Value) (key : String) : Option Value :=
  match v.untagged with
  | mapping entries _ => (entries.find? fun e => isKey e.1).map (·.2)
  | _ => none
where
  isKey : Value → Bool
    | scalar (.text s) => s = key
    | _ => false

instance : Data Value where
  isNull v :=
    match v with
    | scalar .null => true
    | _ => false
  flag? v :=
    match v.untagged with
    | scalar (.bool b) => some b
    | _ => none
  count? v :=
    match v.untagged with
    | scalar (.number (.int n)) => n.toNat?
    | _ => none
  text? := text?
  list? v :=
    match v.untagged with
    | sequence items _ => some items
    | scalar .null => some []
    | _ => none
  record? names v := do
    names.mapM (once? (← v.fields?))
  entries? v := do
    (← v.fields?).mapM fun e => e.1.text?.map (·, e.2)
  json? := json?

end Value

end PipelineLens.Yaml
