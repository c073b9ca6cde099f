import PipelineLens.Options
import PipelineLens.Run.Overlay
import PipelineLens.Time.Instant
import PipelineLens.Time.Span
/-!
# Labels

The label of a node is the name of its task, followed by the finished and all steps and by the time
that the task has taken, as far as they are known and wanted.
-/
namespace PipelineLens.Graph

/-- What a graph shows besides its structure. -/
structure Decoration where
  withState : Bool
  now : Instant
  options : Options

/-- The time from the start of a task to its completion, or to `now` if it has none. -/
def elapsed? (now : Instant) (t : RunNode) : Option String := do
  let start ← Instant.read? (← t.startTime)
  let stop ←
    match t.completionTime with
    | some completion => Instant.read? completion
    | none => some now
  some (Span.label (start.millisBetween stop))

/-- The finished steps among all steps. -/
def progress? (t : RunNode) : Option String := do
  let finished ← t.finishedSteps
  let count ← t.stepsCount
  some s!"({finished}/{count})"

def label (d : Decoration) (t : RunNode) : String :=
  let progress := if d.options.stepProgress then (progress? t).toList else []
  let elapsed := if d.options.elapsedTime then (elapsed? d.now t).toList else []
  (progress ++ elapsed).foldl (fun text part => s!"{text} {part}") (t.task.name.getD "")

end PipelineLens.Graph
