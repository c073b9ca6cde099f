import PipelineLens.Tree.Query
/-!
# Tekton resources

A document holds a Tekton resource when one of its top-level nodes names a Tekton API group and a
kind of resource. The questions about a resource are answered from the first mapping of its
document.
-/
namespace PipelineLens

inductive ResourceKind where
  | task
  | taskRun
  | pipeline
  | pipelineRun
  | pipelineResource
  | clusterTask
  | condition
  | triggerBinding
  | triggerTemplate
  | clusterTriggerBinding
  | eventListener
deriving DecidableEq, Repr

namespace ResourceKind

def name : ResourceKind → String
  | task => "Task"
  | taskRun => "TaskRun"
  | pipeline => "Pipeline"
  | pipelineRun => "PipelineRun"
  | pipelineResource => "PipelineResource"
  | clusterTask => "ClusterTask"
  | condition => "Condition"
  | triggerBinding => "TriggerBinding"
  | triggerTemplate => "TriggerTemplate"
  | clusterTriggerBinding => "ClusterTriggerBinding"
  | eventListener => "EventListener"

def all : List ResourceKind :=
  [task, taskRun, pipeline, pipelineRun, pipelineResource, clusterTask, condition, triggerBinding,
   triggerTemplate, clusterTriggerBinding, eventListener]

def ofName? (name : String) : Option ResourceKind := all.find? fun kind => kind.name = name

end ResourceKind

/-- A resource that a pipeline declares. -/
structure DeclaredResource where
  name : Option String
  type : Option String
deriving DecidableEq, Repr

/-- Whether an API version belongs to one of the two Tekton groups. -/
def isTektonApi (version : String) : Bool :=
  "tekton.dev/".toList.isPrefixOf version.toList
    || "triggers.tekton.dev/".toList.isPrefixOf version.toList

namespace Tree

/-- The kind of the resource that a top-level node describes. -/
def resourceKind? (t : Tree) (id : Nat) : Option ResourceKind := do
  let version ← t.findText? id "apiVersion"
  if isTektonApi version then ResourceKind.ofName? (← t.findText? id "kind") else none

end Tree

namespace Document

/-- The kind of the first resource in the document. -/
def kind? (d : Document) (t : Tree) : Option ResourceKind := d.nodes.findSome? t.resourceKind?

/-- The name under `metadata`. -/
def name? (d : Document) (t : Tree) : Option String := do
  t.findText? (← t.findValue? (← d.root? t) "metadata") "name"

/-- The node under `spec`. -/
def spec? (d : Document) (t : Tree) : Option Nat := do
  t.findValue? (← d.root? t) "spec"

/-- The node under `spec` of a pipeline. -/
def pipelineSpec? (d : Document) (t : Tree) : Option Nat :=
  if d.kind? t = some .pipeline then d.spec? t else none

/-- The items of a list in the spec of a pipeline. -/
def pipelineItems (d : Document) (t : Tree) (key : String) : List Nat :=
  match (d.pipelineSpec? t).bind (t.findValue? · key) with
  | some list => t.items list
  | none => []

/-- The resources that a pipeline declares. -/
def declaredResources (d : Document) (t : Tree) : List DeclaredResource :=
  ((d.pipelineItems t "resources").filter fun item => !(t.pairs item).isEmpty).map fun item =>
    ⟨t.findText? item "name", t.findText? item "type"⟩

/-- The names of the tasks of a pipeline. -/
def taskNames (d : Document) (t : Tree) : List String :=
  (d.pipelineItems t "tasks").filterMap (t.findText? · "name")

/-- The names of the tasks that the tasks of a pipeline refer to. -/
def taskRefNames (d : Document) (t : Tree) : List String :=
  ((d.pipelineItems t "tasks").filterMap (t.findValue? · "taskRef")).filterMap
    (t.findText? · "name")

/-- The name of a pipeline run. -/
def runName? (d : Document) (t : Tree) : Option String :=
  if d.kind? t = some .pipelineRun then d.name? t else none

/-- The name of the pipeline that a pipeline run refers to. -/
def pipelineRefName? (d : Document) (t : Tree) : Option String :=
  if d.kind? t = some .pipelineRun then do
    t.findText? (← t.findValue? (← d.spec? t) "pipelineRef") "name"
  else none

end Document

namespace Parsed

/-- The documents with a resource of this kind. -/
def ofKind (p : Parsed) (kind : ResourceKind) : List Document :=
  p.documents.filter fun d => d.kind? p.tree = some kind

end Parsed

end PipelineLens
