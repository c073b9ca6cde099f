import PipelineLens.Graph.Item
import PipelineLens.Graph.Label
import PipelineLens.Graph.Network
/-!
# Drawing tasks

`draw` lists every task as a node, followed by an edge from each of the tasks that it runs after.
The graph of a pipeline is drawn without run data, that of a run with the data of its status.
-/
namespace PipelineLens.Graph

def nodeOf (d : Decoration) (t : RunNode) : Node where
  id := t.task.id
  label := label d t
  type := t.task.kind.name?
  taskRef := t.task.taskRef
  state := if d.withState then some t.state else none

def edgeOf (d : Decoration) (state : RunState) (source target : String) : Edge where
  id := s!"{source}-{target}"
  source := source
  target := target
  state := if d.withState then some state else none

/-- The edge from the task at a position, if that has an id. -/
def edgeFrom? (d : Decoration) (tasks : Array RunNode) (target : String) (source : Nat) :
    Option Item := do
  let t ← tasks[source]?
  some (.edge (edgeOf d t.state (← t.task.id) target))

/-- The edges that end at a task. -/
def edgesTo (d : Decoration) (tasks : Array RunNode) (sources : List Nat) (t : RunNode) :
    List Item :=
  match t.task.id with
  | none => []
  | some target => sources.filterMap (edgeFrom? d tasks target)

/-- The drawing of tasks through a graph of the given kind. -/
def drawOn (γ : Type) [Multigraph γ] (d : Decoration) (tasks : List RunNode) : List Item :=
  let graph : TaskGraph γ := .ofTasks tasks
  let table := tasks.toArray
  tasks.zipIdx.flatMap fun t =>
    .node (nodeOf d t.1) :: edgesTo d table (graph.predecessors t.2) t.1

def draw (d : Decoration) (tasks : List RunNode) : List Item := drawOn Network d tasks

/-- The graph of a pipeline. -/
def ofPipeline (tasks : List TaskNode) (options : Options) : List Item :=
  draw ⟨false, .epoch, options⟩ (tasks.map .plain)

/-- The graph of a pipeline run, as it stands at `now`. -/
def ofRun (tasks : List TaskNode) (status : Option RunStatus) (now : Instant) (options : Options) :
    List Item :=
  draw ⟨true, now, options⟩ (overlay tasks status)

end PipelineLens.Graph
