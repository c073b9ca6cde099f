import PipelineLens.Data
/-!
# The status of a pipeline run

What the cluster reports about a run: an entry for each task run, in the order of the report, with
the outcome of the task and of the checks of its conditions. Every field may be missing and further
fields are ignored.
-/
namespace PipelineLens

structure StatusCondition where
  type : Option String
  status : Option String
  reason : Option String
  message : Option String
deriving Repr

structure StepStatus where
  name : Option String
  /-- how the step ended, if it did -/
  terminated : Option Json
deriving Repr

structure TaskStatus where
  conditions : List StatusCondition
  startTime : Option String
  completionTime : Option String
  steps : Option (List StepStatus)
deriving Repr

structure ConditionCheck where
  conditionName : Option String
  status : Option TaskStatus
deriving Repr

structure TaskRun where
  pipelineTaskName : Option String
  status : Option TaskStatus
  /-- the checks of the conditions of the task, by name -/
  conditionChecks : List (String × ConditionCheck)
deriving Repr

structure RunStatus where
  /-- the task runs, by name -/
  taskRuns : List (String × TaskRun)
deriving Repr

open Data

variable {δ : Type} [Data δ]

def StatusCondition.read? (d : δ) : Option StatusCondition := do
  match ← record? ["type", "status", "reason", "message"] d with
  | [type, status, reason, message] =>
    some ⟨← optional text? type, ← optional text? status, ← optional text? reason,
      ← optional text? message⟩
  | _ => none

def StepStatus.read? (d : δ) : Option StepStatus := do
  match ← record? ["name", "terminated"] d with
  | [name, terminated] => some ⟨← optional text? name, ← optional json? terminated⟩
  | _ => none

def TaskStatus.read? (d : δ) : Option TaskStatus := do
  match ← record? ["conditions", "startTime", "completionTime", "steps"] d with
  | [conditions, startTime, completionTime, steps] =>
    some ⟨← orElse [] (listOf StatusCondition.read?) conditions, ← optional text? startTime,
      ← optional text? completionTime, ← optional (listOf StepStatus.read?) steps⟩
  | _ => none

def ConditionCheck.read? (d : δ) : Option ConditionCheck := do
  match ← record? ["conditionName", "status"] d with
  | [conditionName, status] =>
    some ⟨← optional text? conditionName, ← optional TaskStatus.read? status⟩
  | _ => none

def TaskRun.read? (d : δ) : Option TaskRun := do
  match ← record? ["pipelineTaskName", "status", "conditionChecks"] d with
  | [pipelineTaskName, status, conditionChecks] =>
    some ⟨← optional text? pipelineTaskName, ← optional TaskStatus.read? status,
      ← orElse [] (tableOf ConditionCheck.read?) conditionChecks⟩
  | _ => none

def RunStatus.read? (d : δ) : Option RunStatus := do
  match ← record? ["taskRuns"] d with
  | [taskRuns] => some ⟨← orElse [] (tableOf TaskRun.read?) taskRuns⟩
  | _ => none

end PipelineLens
