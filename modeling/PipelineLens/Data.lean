import PipelineLens.Distinct
import PipelineLens.Json.Basic
/-!
# Data that records are read from

Typed values are read from several forms of data: JSON values, JSON text, YAML values. `Data` is
what a reader needs of them. Which forms accept `null` for an empty list, or a list for a record, is
decided by each form; what the fields of a record are, by its reader.
-/
namespace PipelineLens

class Data (δ : Type) where
  /-- whether the value stands for nothing where one is optional -/
  isNull : δ → Bool
  flag? : δ → Option Bool
  count? : δ → Option Nat
  text? : δ → Option String
  list? : δ → Option (List δ)
  /-- the values of the named fields of a record, in the order of the names -/
  record? : List String → δ → Option (List (Option δ))
  /-- all fields of a table, in their order -/
  entries? : δ → Option (List (String × δ))
  /-- the whole value as JSON -/
  json? : δ → Option Json

namespace Data

variable {δ β : Type} [Data δ]

/-- A field that must be there. -/
def required (read : δ → Option β) : Option δ → Option β
  | none => none
  | some d => read d

/-- A field that has the value `fallback` when it is missing. -/
def orElse (fallback : β) (read : δ → Option β) : Option δ → Option β
  | none => some fallback
  | some d => read d

/-- A field that may be missing or null. -/
def optional (read : δ → Option β) : Option δ → Option (Option β)
  | none => some none
  | some d => if isNull d then some none else (read d).map some

/-- A list all of whose elements can be read. -/
def listOf (read : δ → Option β) (d : δ) : Option (List β) := (list? d).bind (List.mapM read)

/-- A table of these entries: each key stands where it stands first, with the value that it has
last. -/
def table (entries : List (String × β)) : List (String × β) :=
  let last := Std.TreeMap.ofList entries
  (distinct (entries.map (·.1))).filterMap fun key => last[key]?.map (key, ·)

/-- A table all of whose values can be read. -/
def tableOf (read : δ → Option β) (d : δ) : Option (List (String × β)) := do
  some (table (← (← entries? d).mapM fun e => (read e.2).map (e.1, ·)))

end Data

end PipelineLens
