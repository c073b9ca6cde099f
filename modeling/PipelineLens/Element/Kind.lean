/-!
# Kinds of elements

An element of a pipeline or a pipeline run is a mapping or a list with a known role, or a value.
Only values have nothing below them.
-/
namespace PipelineLens

inductive ElementKind where
  | document
  | pipeline
  | pipelineRun
  | pipelineRunSpec
  | pipelineRef
  | metadata
  | param
  | params
  | pipelineSpec
  | pipelineResources
  | pipelineResource
  | pipelineTasks
  | pipelineFinally
  | pipelineTask
  | pipelineTaskRef
  | value
  | paramSpecs
  | paramSpec
  | stringArray
  | pipelineWorkspaces
  | pipelineWorkspace
  | pipelineTaskConditions
  | pipelineTaskCondition
  | pipelineTaskInputResources
  | pipelineTaskInputResource
  | pipelineTaskInputResourceFrom
  | pipelineTaskRunAfter
  | pipelineTaskResources
  | pipelineTaskOutputsResource
  | pipelineTaskOutputsResources
  | pipelineTaskParams
  | pipelineTaskWorkspace
  | pipelineTaskWorkspaces
  | pipelineTaskWhens
  | pipelineTaskWhen
  | pipelineTaskWhenValues
  | embeddedTask
  | taskResults
  | taskResult
deriving DecidableEq, Repr

namespace ElementKind

def name : ElementKind → String
  | document => "document"
  | pipeline => "pipeline"
  | pipelineRun => "pipelineRun"
  | pipelineRunSpec => "pipelineRunSpec"
  | pipelineRef => "pipelineRef"
  | metadata => "metadata"
  | param => "param"
  | params => "params"
  | pipelineSpec => "pipelineSpec"
  | pipelineResources => "pipelineResources"
  | pipelineResource => "pipelineResource"
  | pipelineTasks => "pipelineTasks"
  | pipelineFinally => "pipelineFinally"
  | pipelineTask => "pipelineTask"
  | pipelineTaskRef => "pipelineTaskRef"
  | value => "value"
  | paramSpecs => "paramSpecs"
  | paramSpec => "paramSpec"
  | stringArray => "stringArray"
  | pipelineWorkspaces => "pipelineWorkspaces"
  | pipelineWorkspace => "pipelineWorkspace"
  | pipelineTaskConditions => "pipelineTaskConditions"
  | pipelineTaskCondition => "pipelineTaskCondition"
  | pipelineTaskInputResources => "pipelineTaskInputResources"
  | pipelineTaskInputResource => "pipelineTaskInputResource"
  | pipelineTaskInputResourceFrom => "pipelineTaskInputResourceFrom"
  | pipelineTaskRunAfter => "pipelineTaskRunAfter"
  | pipelineTaskResources => "pipelineTaskResources"
  | pipelineTaskOutputsResource => "pipelineTaskOutputsResource"
  | pipelineTaskOutputsResources => "pipelineTaskOutputsResources"
  | pipelineTaskParams => "pipelineTaskParams"
  | pipelineTaskWorkspace => "pipelineTaskWorkspace"
  | pipelineTaskWorkspaces => "pipelineTaskWorkspaces"
  | pipelineTaskWhens => "pipelineTaskWhens"
  | pipelineTaskWhen => "pipelineTaskWhen"
  | pipelineTaskWhenValues => "pipelineTaskWhenValues"
  | embeddedTask => "embeddedTask"
  | taskResults => "taskResults"
  | taskResult => "taskResult"

/-- Whether an element of this kind has nothing below it. -/
def isLeaf : ElementKind → Bool
  | value => true
  | _ => false

end ElementKind

end PipelineLens
