import PipelineLens.Element.Kind
/-!
# The fields of elements

A mapping of a known kind has a table of fields: the keys that matter and the shape of what stands
under each. A list has items of one shape.
-/
namespace PipelineLens

/-- The shape of the items of a list. -/
inductive ItemShape where
  | text
  | map (kind : ElementKind)
deriving DecidableEq, Repr

/-- What is read from the node under a key. -/
inductive Shape where
  | text
  | flag
  | number
  /-- the kind in a reference to a task -/
  | taskKind
  | map (kind : ElementKind)
  | list (kind : ElementKind) (item : ItemShape)
  /-- a text, or a list of texts -/
  | textOrList
deriving DecidableEq, Repr

namespace ElementKind

/-- The table of a kind of mapping, in its order. -/
def fields : ElementKind → List (String × Shape)
  | pipeline =>
    [("kind", .text), ("apiVersion", .text), ("metadata", .map metadata),
     ("spec", .map pipelineSpec)]
  | pipelineRun =>
    [("kind", .text), ("apiVersion", .text), ("metadata", .map metadata),
     ("spec", .map pipelineRunSpec)]
  | pipelineRunSpec =>
    [("pipelineRef", .map pipelineRef), ("pipelineSpec", .map pipelineSpec),
     ("params", .list params (.map param)), ("serviceAccountName", .text), ("timeout", .text)]
  | pipelineRef => [("name", .text)]
  | metadata => [("name", .text)]
  | pipelineSpec =>
    [("tasks", .list pipelineTasks (.map pipelineTask)),
     ("finally", .list pipelineFinally (.map pipelineTask)), ("description", .text),
     ("resources", .list pipelineResources (.map pipelineResource)),
     ("params", .list paramSpecs (.map paramSpec)),
     ("workspaces", .list pipelineWorkspaces (.map pipelineWorkspace))]
  | pipelineResource => [("name", .text), ("type", .text), ("optional", .flag)]
  | pipelineTask =>
    [("name", .text), ("taskRef", .map pipelineTaskRef), ("taskSpec", .map embeddedTask),
     ("conditions", .list pipelineTaskConditions (.map pipelineTaskCondition)),
     ("when", .list pipelineTaskWhens (.map pipelineTaskWhen)), ("retries", .number),
     ("runAfter", .list pipelineTaskRunAfter .text), ("resources", .map pipelineTaskResources),
     ("params", .list pipelineTaskParams (.map param)),
     ("workspaces", .list pipelineTaskWorkspaces (.map pipelineTaskWorkspace)), ("timeout", .text)]
  | pipelineTaskRef => [("name", .text), ("kind", .taskKind)]
  | pipelineTaskCondition =>
    [("conditionRef", .text), ("params", .list params (.map param)),
     ("resources", .list pipelineTaskInputResources (.map pipelineTaskInputResource))]
  | pipelineTaskInputResource =>
    [("name", .text), ("resource", .text), ("from", .list pipelineTaskInputResourceFrom .text)]
  | pipelineTaskResources =>
    [("inputs", .list pipelineTaskInputResources (.map pipelineTaskInputResource)),
     ("outputs", .list pipelineTaskOutputsResources (.map pipelineTaskOutputsResource))]
  | pipelineTaskOutputsResource => [("name", .text), ("resource", .text)]
  | param => [("name", .text), ("value", .textOrList)]
  | paramSpec =>
    [("name", .text), ("type", .text), ("description", .text), ("default", .textOrList)]
  | pipelineWorkspace => [("name", .text), ("description", .text)]
  | pipelineTaskWorkspace => [("name", .text), ("workspace", .text)]
  | pipelineTaskWhen =>
    [("input", .text), ("operator", .text), ("values", .list pipelineTaskWhenValues .text)]
  | embeddedTask =>
    [("description", .text), ("params", .list paramSpecs (.map paramSpec)),
     ("results", .list taskResults (.map taskResult))]
  | taskResult => [("name", .text), ("description", .text)]
  | _ => []

end ElementKind

end PipelineLens
