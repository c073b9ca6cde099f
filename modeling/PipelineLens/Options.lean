import PipelineLens.Json.Reader
import PipelineLens.Json.Record
/-!
# What the labels of a graph show

The host sends the options as JSON text. Text that is empty or cannot be read gives the default: all
of them on.
-/
namespace PipelineLens

structure Options where
  /-- whether a label shows how many steps have finished -/
  stepProgress : Bool
  /-- whether a label shows the time a task has taken -/
  elapsedTime : Bool
deriving DecidableEq, Repr

namespace Options

def default : Options := ⟨true, true⟩

def read? {δ : Type} [Data δ] (d : δ) : Option Options := do
  match ← Data.record? ["stepProgress", "elapsedTime"] d with
  | [stepProgress, elapsedTime] =>
    some ⟨← Data.orElse true Data.flag? stepProgress, ← Data.orElse true Data.flag? elapsedTime⟩
  | _ => none

def ofText (text : String) : Options :=
  match (Json.Written.read? text).bind fun w => read? (Json.Part.whole w) with
  | some options => options
  | none => default

end Options

end PipelineLens
