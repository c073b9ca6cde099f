import PipelineLens.Run.Status
import PipelineLens.Spec.Definition
import PipelineLens.Yaml.Json
import PipelineLens.Yaml.Value
/-!
# Fetched texts

The cluster gives a pipeline or a run as a text, in YAML or in JSON, which YAML includes. A pipeline
that cannot be read has no tasks, and a run that cannot be read has no data.
-/
namespace PipelineLens

/-- The tasks of a fetched pipeline. -/
def fetchedTasks (text : String) : List TaskNode :=
  match Yaml.json? text with
  | some definition => definitionTasks definition
  | none => []

/-- The status of a fetched run, which is the whole text or stands under `status` in it. -/
def fetchedStatus? (text : String) : Option RunStatus := do
  let value ← Yaml.Value.read? text
  RunStatus.read? ((value.under? "status").getD value)

end PipelineLens
