/-!
# Quoted scalars

A scalar of the parse tree keeps the quotes it was written with. `unquote` takes one layer of them
away: a double quote at both ends, or else a single quote at both ends.
-/
namespace PipelineLens.Text

/-- The text between two marks `quote`, when `cs` starts and ends with one of its own each. -/
def between? (quote : Char) (cs : List Char) : Option (List Char) :=
  match cs with
  | [] => none
  | c :: rest =>
    if c = quote ∧ rest.getLast? = some quote then some rest.dropLast else none

/-- `raw` without one layer of surrounding quotes. -/
def unquote (raw : String) : String :=
  match between? '"' raw.toList with
  | some inner => String.ofList inner
  | none =>
    match between? '\x27' raw.toList with
    | some inner => String.ofList inner
    | none => raw

end PipelineLens.Text
