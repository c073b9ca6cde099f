import PipelineLens.Preview.Basic
import PipelineLens.Time.Clock
import PipelineLens.Tree.Host
/-!
# Calls of the editor

The editor parses a document itself and hands over the tree as JSON text, together with what it has
fetched. It counts columns and offsets in UTF-16 code units.
-/
namespace PipelineLens.Host

/-- The graph of the first pipeline in a tree. -/
def pipelineGraph (tree options : String) : Except Error (List Graph.Item) := do
  let p ← Parsed.read tree
  return Graph.ofPipeline p.pipelineTasks (.ofText options)

/-- The tasks of the first run in a tree, or those of the fetched pipeline if it has none. -/
def runTasks (p : Parsed) (pipeline : Option String) : List TaskNode :=
  let inline := (p.ofKind .pipelineRun).head?.bind fun d => (d.taskSpec? p.tree).map extract
  match inline, pipeline with
  | some tasks, _ => tasks
  | none, some text => fetchedTasks text
  | none, none => []

/-- The graph of the first run in a tree, with the fetched texts of its pipeline and of the run. -/
def runGraph (tree : String) (pipeline status : Option String) (now : Binary64) (options : String) :
    Except Error (List Graph.Item) := do
  let p ← Parsed.read tree
  return Graph.ofRun (runTasks p pipeline) (status.bind fetchedStatus?) (.ofClock now)
    (.ofText options)

/-- An element as the editor shows it. -/
structure Found where
  kind : ElementKind
  start : Nat
  stop : Nat
  value : Option ElementValue
  definition : Option Definition
  /-- the task or condition around the position -/
  taskName : Option String
deriving DecidableEq, Repr

/-- The element of a sheet at an offset. -/
def found? (s : Sheet) (pos : Nat) : Option Found := do
  let id ← s.find? pos
  let e ← s.element? id
  some ⟨e.kind, e.place.start, e.place.stop, e.value, s.definition? id, s.taskNameAt? pos⟩

/-- The innermost element at a line and a column, in the first document that has one there. -/
def findElement (tree text : String) (line column : Nat) : Except Error (Option Found) := do
  let p ← Parsed.read tree
  let pos ← (LineTable.ofText .utf16 text).offset? line column
  return (p.documents.filterMap (·.sheet? p.tree)).findSome? (found? · pos)

end PipelineLens.Host
