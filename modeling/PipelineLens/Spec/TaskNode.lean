/-!
# The tasks of a pipeline

Extraction turns a pipeline spec into a flat list of nodes: the tasks that the spec declares, and
for each condition and each `when` expression of a task a guard that stands before it.
-/
namespace PipelineLens

/-- What a node of the task graph stands for. -/
inductive TaskKind where
  | task
  | clusterTask
  /-- the guard of one of a task's conditions -/
  | condition
  /-- the guard of one of a task's `when` expressions -/
  | whenInput
  /-- a kind of referenced task that is neither of the two known ones -/
  | other (name : String)
  /-- nothing says what the task is -/
  | unknown
deriving DecidableEq, Repr, Inhabited

namespace TaskKind

/-- The kind that a reference names. -/
def ofReference (name : String) : TaskKind :=
  if name = "Task" then task else if name = "ClusterTask" then clusterTask else other name

/-- The kind as a graph shows it. -/
def name? : TaskKind → Option String
  | task => some "Task"
  | clusterTask => some "ClusterTask"
  | condition => some "Condition"
  | whenInput => some "When"
  | other name => some name
  | unknown => none

/-- Whether the node was put in before a task. -/
def isGuard : TaskKind → Bool
  | condition => true
  | whenInput => true
  | _ => false

end TaskKind

structure TaskNode where
  /-- what other nodes call this one -/
  id : Option String
  name : Option String
  /-- the name of the referenced task -/
  taskRef : Option String
  kind : TaskKind
  /-- the ids of the nodes that come before this one, in the order in which they were found -/
  runAfter : List String
  /-- where the node starts in the text, if it stands in one -/
  position : Option Nat
  /-- whether the node runs when all others are done -/
  isFinal : Bool
deriving DecidableEq, Repr, Inhabited

end PipelineLens
