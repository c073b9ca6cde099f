import PipelineLens.Yaml.Scalar
import PipelineLens.Yaml.Walk
/-!
# YAML as JSON

A YAML text is read as JSON: keys are the texts of scalars, whatever these would stand for, and of
entries with one key the last counts. Tags of the text's own are refused, except on keys.
-/
namespace PipelineLens.Yaml

/-- What a node is in an object. -/
structure Role where
  key? : Option String
  value? : Option Json

namespace Role

def ofScalar (tag : Option Tag) (plain : Bool) (text : String) : Role where
  key? := some text
  value? :=
    if (Tag.ownName? tag).isSome then none else (Scalar.read? tag plain text).map (·.toJson)

/-- A collection, which is no key. -/
def ofCollection? (tag : Option Tag) (value : Json) : Option Role :=
  if (Tag.ownName? tag).isSome then none else some ⟨none, some value⟩

def ofItems? (tag : Option Tag) (items : List Role) : Option Role := do
  ofCollection? tag (.array (← items.mapM (·.value?)))

/-- A field of an object. -/
def field? (entry : Role × Role) : Option (String × Json) := do
  some (← entry.1.key?, ← entry.2.value?)

def ofEntries? (tag : Option Tag) (entries : List (Role × Role)) : Option Role := do
  ofCollection? tag (.ofFields (← entries.mapM field?))

def reading : Reading Unit Role where
  scalar tag plain text := return ofScalar tag plain text
  sequence tag items := StateT.lift (ofItems? tag items)
  mapping tag entries := StateT.lift (ofEntries? tag entries)

end Role

/-- The text as JSON. -/
def json? (text : String) : Option Json := do
  let root ← Node.read? text
  (← Role.reading.document? () root).value?

end PipelineLens.Yaml
