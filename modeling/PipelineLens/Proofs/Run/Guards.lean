import PipelineLens.Proofs.Spec.Dependencies
import PipelineLens.Proofs.Unrepeated
import PipelineLens.Run.Overlay
/-!
# The states of condition guards

A task run reports on the conditions of its own task. The guard of a condition is looked up by the
condition alone: it shows what the first task run that reports on the condition says, whichever task
this is a run of. So the guard shows the check of its own task if this task run is the first one to
report, and otherwise just where the first report and that of its own task say the same
(`showsOwnChecks_iff`).
-/
namespace PipelineLens

open SpecView

namespace RunStatus

/-- No two task runs are of one task. -/
def OneRunPerTask (status : RunStatus) : Prop :=
  (status.taskRuns.filterMap (·.2.pipelineTaskName)).Nodup

instance (status : RunStatus) : Decidable status.OneRunPerTask :=
  inferInstanceAs (Decidable (status.taskRuns.filterMap (·.2.pipelineTaskName)).Nodup)

/-- The first task run of a task. -/
def taskRun? (status : RunStatus) (task : String) : Option (String × TaskRun) :=
  status.taskRuns.find? fun run => run.2.pipelineTaskName = some task

/-- The first task run that reports on a condition. -/
def firstReport? (status : RunStatus) (condition : String) : Option (String × TaskRun) :=
  status.taskRuns.find? fun run => (run.2.checkStatus? condition).isSome

/-- What the task run of a task reports on a condition. -/
def ownCheck? (status : RunStatus) (task condition : String) : Option TaskStatus :=
  (status.taskRun? task).bind (·.2.checkStatus? condition)

section
variable {status : RunStatus} {task condition : String}

theorem conditionStatus?_eq (status : RunStatus) (condition : String) :
    status.conditionStatus? condition
      = (status.firstReport? condition).bind (·.2.checkStatus? condition) := by
  rw [conditionStatus?, firstReport?]
  induction status.taskRuns with
  | nil => rfl
  | cons run runs ih =>
    rw [List.findSome?_cons, List.find?_cons, ih]
    cases hcheck : run.2.checkStatus? condition <;> simp [hcheck]

/-- Where no task run reports on a condition, that of the task does not either. -/
theorem ownCheck?_eq_none (h : status.firstReport? condition = none) :
    status.ownCheck? task condition = none := by
  rw [ownCheck?, Option.bind_eq_none_iff]
  intro run hrun
  have := List.find?_eq_none.1 h run (List.mem_of_find?_eq_some hrun)
  simpa using this

/-- A task run that has the name of a task is the task run of the task. -/
theorem OneRunPerTask.taskRun?_eq (h : status.OneRunPerTask) {run : String × TaskRun}
    (hrun : run ∈ status.taskRuns) (htask : run.2.pipelineTaskName = some task) :
    status.taskRun? task = some run :=
  find?_of_nodup_filterMap h hrun htask

end

end RunStatus

theorem state_of_mem_overlay {tasks : List TaskNode} {status : RunStatus} {n : RunNode}
    (hn : n ∈ overlay tasks (some status)) : n.state = .ofStatus? (status.find? n.task) := by
  rw [overlay_eq] at hn
  obtain ⟨task, -, rfl⟩ := List.mem_map.1 hn
  rw [Option.bind_some]
  cases hfind : status.find? task <;>
    simp [RunNode.ofStatus, RunNode.plain, RunState.ofStatus?, hfind]

theorem exists_mem_overlay {tasks : List TaskNode} {task : TaskNode} (h : task ∈ tasks)
    (status : Option RunStatus) : ∃ n ∈ overlay tasks status, n.task = task := by
  rw [overlay_eq]
  refine ⟨_, List.mem_map_of_mem h, ?_⟩
  cases status.bind (·.find? task) <;> rfl

variable {σ : Type} [SpecView σ]

/-- Every guard of a condition shows what the task run of its own task reports on the condition. -/
def ShowsOwnChecks (spec : σ) (status : RunStatus) : Prop :=
  ∀ e ∈ entries spec "tasks", ∀ c ∈ fieldItems e "conditions",
    ∀ n ∈ overlay (extract spec) (some status), n.task = conditionGuard (baseDependencies e) c →
      ∀ task ∈ fieldText? e "name", ∀ condition ∈ fieldText? c "conditionRef",
        n.state = .ofStatus? (status.ownCheck? task condition)

/-- The guard of a condition shows what the first task run that reports on it says. -/
theorem state_conditionGuard {tasks : List TaskNode} {status : RunStatus} {n : RunNode}
    {base : List String} {c : σ} {condition : String} (hn : n ∈ overlay tasks (some status))
    (hnode : n.task = conditionGuard base c)
    (hcondition : fieldText? c "conditionRef" = some condition) :
    n.state = .ofStatus? ((status.firstReport? condition).bind (·.2.checkStatus? condition)) := by
  rw [state_of_mem_overlay hn, hnode, ← RunStatus.conditionStatus?_eq]
  simp [RunStatus.find?, conditionGuard, hcondition]

/-- **A condition guard shows the check of its own task just where the first task run that reports
on the condition is that of the task, or comes to the same state.** -/
theorem showsOwnChecks_iff {spec : σ} {status : RunStatus} (hruns : status.OneRunPerTask) :
    ShowsOwnChecks spec status ↔
      ∀ e ∈ entries spec "tasks", ∀ c ∈ fieldItems e "conditions",
        ∀ task ∈ fieldText? e "name", ∀ condition ∈ fieldText? c "conditionRef",
          ∀ run ∈ status.firstReport? condition, run.2.pipelineTaskName ≠ some task →
            RunState.ofStatus? (run.2.checkStatus? condition)
              = .ofStatus? (status.ownCheck? task condition) := by
  constructor
  · intro h e he c hc task htask condition hcondition run hrun _
    have hguard : conditionGuard (baseDependencies e) c ∈ extract spec :=
      mainNodes_subset spec (guard_mem (mem_allGuards.2
        ⟨e, he, mem_guards.2 (.inl ⟨c, hc, rfl⟩)⟩))
    obtain ⟨n, hn, hnode⟩ := exists_mem_overlay hguard (some status)
    rw [← h e he c hc n hn hnode task htask condition hcondition,
      state_conditionGuard hn hnode hcondition, hrun, Option.bind_some]
  · intro h e he c hc n hn hnode task htask condition hcondition
    rw [state_conditionGuard hn hnode hcondition]
    cases hfirst : status.firstReport? condition with
    | none => rw [RunStatus.ownCheck?_eq_none hfirst, Option.bind_none]
    | some run =>
      rw [Option.bind_some]
      by_cases hown : run.2.pipelineTaskName = some task
      · rw [RunStatus.ownCheck?, hruns.taskRun?_eq (List.mem_of_find?_eq_some hfirst) hown,
          Option.bind_some]
      · exact h e he c hc task htask condition hcondition run hfirst hown

/-- Two tasks, one after the other, with one condition. -/
def twiceCheckedSpec : Json := .object [("tasks", .array [
  .object [("conditions", .array [.object [("conditionRef", .string "c")]]), ("name", .string "a")],
  .object [("conditions", .array [.object [("conditionRef", .string "c")]]), ("name", .string "b"),
    ("runAfter", .array [.string "a"])]])]

/-- The condition was met for the first task, and for the second one it came out as `outcome`. -/
def twiceCheckedStatus (outcome : String) : RunStatus :=
  let check (name outcome : String) : String × ConditionCheck :=
    (name, ⟨some "c", some ⟨[⟨none, some outcome, none, none⟩], none, none, none⟩⟩)
  ⟨[("run-a", ⟨some "a", none, [check "run-a-c" "True"]⟩),
    ("run-b", ⟨some "b", none, [check "run-b-c" outcome]⟩)]⟩

theorem showsOwnChecks_twiceChecked : (twiceCheckedStatus "True").OneRunPerTask ∧
    ShowsOwnChecks twiceCheckedSpec (twiceCheckedStatus "True") := by
  have h : (twiceCheckedStatus "True").OneRunPerTask := by decide
  exact ⟨h, (showsOwnChecks_iff h).2 (by decide)⟩

/-- The tasks have names of their own, and so have the task runs and the conditions of each, but the
guard of the second task shows what the first task run reports. -/
theorem not_showsOwnChecks_twiceChecked :
    (∀ e ∈ entries twiceCheckedSpec "tasks", (fieldText? e "name").isSome) ∧
      (taskNames twiceCheckedSpec).Nodup ∧ (twiceCheckedStatus "False").OneRunPerTask ∧
      (∀ run ∈ (twiceCheckedStatus "False").taskRuns,
        (run.2.conditionChecks.filterMap (·.2.conditionName)).Nodup) ∧
      ¬ ShowsOwnChecks twiceCheckedSpec (twiceCheckedStatus "False") := by
  refine ⟨by decide, by decide, by decide, by decide, ?_⟩
  unfold ShowsOwnChecks
  decide

end PipelineLens
