import PipelineLens.Spec.Awaiting
import PipelineLens.Spec.Reference
import PipelineLens.Spec.TaskNode
import PipelineLens.Spec.View
/-!
# From a spec to its tasks

`extract` lists the tasks of a spec. Every entry of `tasks` gives a block: the task, then a guard
for each of its conditions and each of its `when` expressions. A guarded task runs after its guards
only, and the guards take over what it would have run after. Every entry of `finally` gives a task
that runs after the sinks of the main list, the nodes that nothing else in it runs after.
-/
namespace PipelineLens

open SpecView

variable {σ : Type} [SpecView σ]

/-! ## What a task runs after -/

/-- The tasks that a resource is taken from. -/
def resourceProducers (binding : σ) : List String := (fieldItems binding "from").filterMap text?

/-- The tasks that the resources of a condition are taken from. -/
def conditionProducers (condition : σ) : List String :=
  distinct ((fieldItems condition "resources").flatMap resourceProducers)

/-- The texts in the value of a parameter: itself, or its items. -/
def parameterTexts (parameter : σ) : List String :=
  match field? parameter "value" with
  | none => []
  | some value =>
    match text? value with
    | some text => [text]
    | none => (items value).filterMap text?

/-- The entries of `runAfter`. -/
def explicitDependencies (entry : σ) : List String := (fieldItems entry "runAfter").filterMap text?

/-- The tasks that the input resources of a task are taken from. -/
def inputProducers (entry : σ) : List String :=
  match field? entry "resources" with
  | none => []
  | some resources => (fieldItems resources "inputs").flatMap resourceProducers

/-- The tasks whose results the parameters of a task refer to. -/
def parameterReferences (entry : σ) : List String :=
  (distinct ((fieldItems entry "params").flatMap parameterTexts)).flatMap referencedTasks

/-- What a task runs after, guards left aside. -/
def baseDependencies (entry : σ) : List String :=
  distinct (explicitDependencies entry ++ inputProducers entry ++ parameterReferences entry)

/-! ## Tasks and guards -/

/-- The kind of a task and the name of the task it refers to. -/
def taskReference (entry : σ) : TaskKind × Option String :=
  match field? entry "taskRef" with
  | some reference =>
    (((fieldText? reference "kind").map TaskKind.ofReference).getD .task,
      fieldText? reference "name")
  | none => (if (field? entry "taskSpec").isSome then .task else .unknown, none)

/-- The task that an entry declares. -/
def declare (entry : σ) : TaskNode where
  id := fieldText? entry "name"
  name := fieldText? entry "name"
  taskRef := (taskReference entry).2
  kind := (taskReference entry).1
  runAfter := []
  position := offset? entry
  isFinal := false

/-- The guard of a condition of a task that runs after `base`. -/
def conditionGuard (base : List String) (condition : σ) : TaskNode where
  id := fieldText? condition "conditionRef"
  name := fieldText? condition "conditionRef"
  taskRef := none
  kind := .condition
  runAfter := distinct (conditionProducers condition ++ base)
  position := offset? condition
  isFinal := false

/-- The input of a `when` expression, empty if there is none. -/
def whenText (expression : σ) : String := (fieldText? expression "input").getD ""

/-- The guard of a `when` expression of the task `owner` that runs after `base`. -/
def whenGuard (owner : Option String) (base : List String) (expression : σ) : TaskNode where
  id := some (owner.getD "" ++ ":" ++ whenText expression)
  name := fieldText? expression "input"
  taskRef := none
  kind := .whenInput
  runAfter := distinct (referencedTasks (whenText expression) ++ base)
  position := offset? expression
  isFinal := false

/-- The guards of a task, those of its conditions first. -/
def guards (entry : σ) : List TaskNode :=
  let base := baseDependencies entry
  (fieldItems entry "conditions").map (conditionGuard base)
    ++ (fieldItems entry "when").map (whenGuard (fieldText? entry "name") base)

/-- Whether a task has conditions or `when` expressions. -/
def hasGuards (entry : σ) : Bool :=
  !(fieldItems entry "conditions").isEmpty || !(fieldItems entry "when").isEmpty

/-- What a task with these guards runs after: the guards if there are any. -/
def ownDependencies (entry : σ) (guards : List TaskNode) : List String :=
  if hasGuards entry then distinct (guards.filterMap (·.id)) else baseDependencies entry

/-- A task and its guards. -/
def block (entry : σ) : List TaskNode :=
  let guards := guards entry
  { declare entry with runAfter := ownDependencies entry guards } :: guards

/-! ## Whole specs -/

/-- The entries under a key that are mappings. -/
def entries (spec : σ) (key : String) : List σ := (fieldItems spec key).filter isMapping

/-- The tasks and guards of the main list. -/
def mainNodes (spec : σ) : List TaskNode := (entries spec "tasks").flatMap block

/-- The ids of the nodes that no other node runs after. -/
def sinks (nodes : List TaskNode) : List String :=
  let known := AwaitingTable.ofNodes nodes
  distinct (nodes.zipIdx.filterMap fun n => n.1.id.filter fun id => !known.besides n.2 id)

theorem sinks_eq (nodes : List TaskNode) :
    sinks nodes = distinct
      (nodes.zipIdx.filterMap fun n => n.1.id.filter fun id => !isAwaited nodes n.2 id) := by
  simp only [sinks, AwaitingTable.besides_ofNodes]

/-- The task of an entry of `finally`. -/
def finalTask (runAfter : List String) (entry : σ) : TaskNode :=
  { declare entry with runAfter := runAfter, isFinal := true }

/-- All tasks and guards of a spec, the main list first. -/
def extract (spec : σ) : List TaskNode :=
  let main := mainNodes spec
  main ++ (entries spec "finally").map (finalTask (sinks main))

end PipelineLens
