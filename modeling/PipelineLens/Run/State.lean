import PipelineLens.Json.Record
import PipelineLens.Resource
import PipelineLens.Run.Status
/-!
# Run states

A task is started once it has a start time. The first condition of its status decides how it ended,
if it did, whether or not it has a start time.
-/
namespace PipelineLens

inductive RunState where
  | started
  | finished
  | failed
  | cancelled
  | unknown
deriving DecidableEq, Repr, Inhabited

namespace RunState

def name : RunState → String
  | started => "Started"
  | finished => "Finished"
  | failed => "Failed"
  | cancelled => "Cancelled"
  | unknown => "Unknown"

/-- The end that a condition reports. -/
def ofCondition? (c : StatusCondition) : Option RunState :=
  match c.status with
  | some "True" => some finished
  | some "False" => some (if c.reason = some "TaskRunCancelled" then cancelled else failed)
  | _ => none

/-- The state of a task with this status. -/
def ofStatus (status : TaskStatus) : RunState :=
  match status.conditions.head?.bind ofCondition? with
  | some state => state
  | none => if status.startTime.isSome then started else unknown

/-- The state of a task that may have no status. -/
def ofStatus? (status : Option TaskStatus) : RunState := (status.map ofStatus).getD unknown

end RunState

/-- The state that the status inside a document reports; unknown if it cannot be read. -/
def Document.runState (d : Document) (t : Tree) : RunState :=
  .ofStatus? (((d.root? t).bind (t.findValue? · "status")).bind fun id =>
    TaskStatus.read? (t.toJson id))

end PipelineLens
