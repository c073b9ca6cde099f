import Std.Data.TreeMap.Lemmas
import PipelineLens.Run.State
import PipelineLens.Spec.TaskNode
/-!
# Run data on tasks

`overlay` puts what a status says about each node next to it. A task is looked up by the name that
the task runs give for it, the guard of a condition among the condition checks of all task runs. An
index of the status finds the same for many nodes.
-/
namespace PipelineLens

/-- A node of the task graph with its run data. -/
structure RunNode where
  task : TaskNode
  state : RunState
  startTime : Option String
  completionTime : Option String
  stepsCount : Option Nat
  finishedSteps : Option Nat
deriving DecidableEq, Repr, Inhabited

namespace RunNode

/-- A node without run data. -/
def plain (task : TaskNode) : RunNode := ⟨task, .unknown, none, none, none, none⟩

/-- A node with the data of a status. -/
def ofStatus (task : TaskNode) (status : TaskStatus) : RunNode where
  task := task
  state := .ofStatus status
  startTime := status.startTime
  completionTime := status.completionTime
  stepsCount := status.steps.map (·.length)
  finishedSteps := status.steps.map fun steps => (steps.filter (·.terminated.isSome)).length

end RunNode

namespace TaskRun

/-- The status of the first check of a condition. -/
def checkStatus? (run : TaskRun) (condition : String) : Option TaskStatus :=
  (run.conditionChecks.find? fun check => check.2.conditionName = some condition).bind (·.2.status)

end TaskRun

namespace RunStatus

/-- The status of the first task run of a task. -/
def taskStatus? (status : RunStatus) (task : String) : Option TaskStatus :=
  (status.taskRuns.find? fun run => run.2.pipelineTaskName = some task).bind (·.2.status)

/-- The status of a condition in the first task run that has one for it. -/
def conditionStatus? (status : RunStatus) (condition : String) : Option TaskStatus :=
  status.taskRuns.findSome? fun run => run.2.checkStatus? condition

/-- What the status says about a node. -/
def find? (status : RunStatus) (task : TaskNode) : Option TaskStatus :=
  match task.name with
  | none => none
  | some name =>
    if task.kind = .condition then status.conditionStatus? name else status.taskStatus? name

end RunStatus

/-! ## Looking up many nodes -/

/-- What a status says, by the names that it is looked up with. -/
structure StatusIndex where
  tasks : Std.TreeMap String TaskStatus
  conditions : Std.TreeMap String TaskStatus

namespace StatusIndex

/-- The statuses of tasks, where `later` has those of further task runs. -/
def addTask (run : String × TaskRun) (later : Std.TreeMap String TaskStatus) :
    Std.TreeMap String TaskStatus :=
  match run.2.pipelineTaskName with
  | some name => later.alter name fun _ => run.2.status
  | none => later

/-- The statuses of conditions, where `later` has those of further task runs. -/
def addChecks (run : String × TaskRun) (later : Std.TreeMap String TaskStatus) :
    Std.TreeMap String TaskStatus :=
  run.2.conditionChecks.foldr (fun check found =>
    match check.2.conditionName with
    | some name => found.alter name fun _ => check.2.status.or later[name]?
    | none => found) later

def ofStatus (status : RunStatus) : StatusIndex where
  tasks := status.taskRuns.foldr addTask ∅
  conditions := status.taskRuns.foldr addChecks ∅

/-- What the status says about a node. -/
def find? (index : StatusIndex) (task : TaskNode) : Option TaskStatus :=
  match task.name with
  | none => none
  | some name => if task.kind = .condition then index.conditions[name]? else index.tasks[name]?

theorem getElem?_tasks (status : RunStatus) (name : String) :
    (ofStatus status).tasks[name]? = status.taskStatus? name := by
  simp only [ofStatus, RunStatus.taskStatus?]
  induction status.taskRuns with
  | nil => simp
  | cons run runs ih =>
    simp only [List.foldr_cons, addTask, List.find?_cons]
    cases hn : run.2.pipelineTaskName with
    | none => simpa using ih
    | some own =>
      by_cases h : own = name
      · simp [h]
      · simpa [Std.TreeMap.getElem?_alter, h] using ih

theorem getElem?_addChecks (run : String × TaskRun) (later : Std.TreeMap String TaskStatus)
    (name : String) :
    (addChecks run later)[name]? = (run.2.checkStatus? name).or later[name]? := by
  simp only [addChecks, TaskRun.checkStatus?]
  induction run.2.conditionChecks with
  | nil => simp
  | cons check checks ih =>
    simp only [List.foldr_cons, List.find?_cons]
    cases hn : check.2.conditionName with
    | none => simpa using ih
    | some own =>
      by_cases h : own = name
      · simp [h]
      · simpa [Std.TreeMap.getElem?_alter, h] using ih

theorem getElem?_conditions (status : RunStatus) (name : String) :
    (ofStatus status).conditions[name]? = status.conditionStatus? name := by
  simp only [ofStatus, RunStatus.conditionStatus?]
  induction status.taskRuns with
  | nil => simp
  | cons run runs ih =>
    rw [List.foldr_cons, getElem?_addChecks, ih, List.findSome?_cons]
    cases run.2.checkStatus? name <;> simp

theorem find?_ofStatus (status : RunStatus) (task : TaskNode) :
    (ofStatus status).find? task = status.find? task := by
  simp only [find?, RunStatus.find?, getElem?_tasks, getElem?_conditions]

end StatusIndex

/-! ## Whole lists -/

/-- The nodes with their run data. -/
def overlay (tasks : List TaskNode) (status : Option RunStatus) : List RunNode :=
  let index := status.map .ofStatus
  tasks.map fun task =>
    match index.bind fun (i : StatusIndex) => i.find? task with
    | some found => .ofStatus task found
    | none => .plain task

theorem overlay_eq (tasks : List TaskNode) (status : Option RunStatus) :
    overlay tasks status = tasks.map fun task =>
      match status.bind (·.find? task) with
      | some found => .ofStatus task found
      | none => .plain task := by
  cases status with
  | none => rfl
  | some status => simp only [overlay, Option.map_some, Option.bind_some,
      StatusIndex.find?_ofStatus]

end PipelineLens
