import PipelineLens.Resource
import PipelineLens.Spec.Extract
/-!
# The tasks of documents and definitions

The spec with the tasks is the spec of a pipeline, or the pipeline spec inside the spec of a
pipeline run. A document says which by its resource kind; a fetched definition counts as a pipeline
unless it says that it is a run.
-/
namespace PipelineLens

/-- The spec in a document that lists tasks. -/
def Document.taskSpec? (d : Document) (t : Tree) : Option TreeNode := do
  let root ← d.root? t
  let spec ← SpecView.field? (TreeNode.mk t root) "spec"
  match ← d.kind? t with
  | .pipeline => some spec
  | .pipelineRun => SpecView.field? spec "pipelineSpec"
  | _ => none

/-- The tasks of a document. -/
def Document.tasks (d : Document) (t : Tree) : List TaskNode :=
  match d.taskSpec? t with
  | some spec => extract spec
  | none => []

/-- The tasks of a definition. -/
def definitionTasks (definition : Json) : List TaskNode :=
  match SpecView.field? definition "spec" with
  | none => []
  | some spec =>
    if SpecView.fieldText? definition "kind" = some "PipelineRun" then
      match SpecView.field? spec "pipelineSpec" with
      | some inline => extract inline
      | none => []
    else extract spec

end PipelineLens
