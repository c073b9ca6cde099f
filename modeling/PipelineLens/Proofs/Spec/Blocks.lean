import Mathlib.Algebra.GroupWithZero.Nat
import PipelineLens.Proofs.Collecting
import PipelineLens.Proofs.Spec.Dependencies
/-!
# The block of a task

What a spec comes to, entry by entry. `stated` lists all that an entry says it runs after, repeats
included, and the definitions below it say what one entry of the main list contributes: its task and
a node for each of its conditions and `when` expressions. `extract_eq_blocks` says that the tasks of
a spec are these blocks and then its final tasks, whatever shape its values have.
-/
namespace PipelineLens

open SpecView

variable {σ : Type} [SpecView σ]

namespace Block

/-- The texts among the items under a key. -/
def texts (s : σ) (key : String) : List String := (fieldItems s key).filterMap text?

/-- The texts in the value of a parameter: the value, if it is a text, and else those among its
items. -/
def valueTexts (parameter : σ) : List String :=
  match fieldText? parameter "value" with
  | some text => [text]
  | none => texts parameter "value"

/-- The tasks whose results a text refers to, once for each reference. -/
def referred (text : String) : List String := (references text).map (·.task)

/-- All that an entry says it runs after: `runAfter`, the producers of its inputs, and the tasks
whose results its parameters refer to. -/
def stated (e : σ) : List String :=
  texts e "runAfter"
    ++ ((field? e "resources").toList.flatMap (fieldItems · "inputs")).flatMap (texts · "from")
    ++ ((fieldItems e "params").flatMap valueTexts).flatMap referred

/-- What an entry runs after, guards left aside. -/
def base (e : σ) : List String := (stated e).eraseDups

/-- The node of a condition of the entry `e`. -/
def conditionNode (e condition : σ) : TaskNode where
  id := fieldText? condition "conditionRef"
  name := fieldText? condition "conditionRef"
  taskRef := none
  kind := .condition
  runAfter := ((fieldItems condition "resources").flatMap (texts · "from") ++ base e).eraseDups
  position := offset? condition
  isFinal := false

/-- The node of a `when` expression of the entry `e`. -/
def whenNode (e expression : σ) : TaskNode where
  id := some ((fieldText? e "name").getD "" ++ ":" ++ (fieldText? expression "input").getD "")
  name := fieldText? expression "input"
  taskRef := none
  kind := .whenInput
  runAfter := (referred ((fieldText? expression "input").getD "") ++ base e).eraseDups
  position := offset? expression
  isFinal := false

/-- The nodes that follow the task of an entry. -/
def guardNodes (e : σ) : List TaskNode :=
  (fieldItems e "conditions").map (conditionNode e) ++ (fieldItems e "when").map (whenNode e)

/-- The task of an entry. -/
def taskNode (e : σ) : TaskNode :=
  { declare e with
    runAfter :=
      if fieldItems e "conditions" = [] ∧ fieldItems e "when" = [] then base e
      else ((guardNodes e).filterMap (·.id)).eraseDups }

/-! ## One entry -/

theorem inputProducers_eq (e : σ) : inputProducers e
    = ((field? e "resources").toList.flatMap (fieldItems · "inputs")).flatMap (texts · "from") := by
  unfold inputProducers
  cases field? e "resources" with
  | none => rfl
  | some resources =>
    rw [Option.toList_some, List.flatMap_singleton]
    rfl

theorem parameterTexts_eq (parameter : σ) : parameterTexts parameter = valueTexts parameter := by
  unfold parameterTexts valueTexts texts fieldText? fieldItems
  cases field? parameter "value" with
  | none => rfl
  | some value =>
    cases htext : text? value with
    | none => simp only [Option.bind_some, htext, Option.map_some, Option.getD_some]
    | some text => simp only [Option.bind_some, htext]

/-- Repeats that extraction leaves out on the way would be left out in the end. -/
theorem baseDependencies_eq (e : σ) : baseDependencies e = base e := by
  have hreferences : ∀ collected, (parameterReferences e).foldl push collected
      = (((fieldItems e "params").flatMap valueTexts).flatMap referred).foldl push collected := by
    intro collected
    rw [parameterReferences, funext parameterTexts_eq, foldl_push_flatMap_distinct]
    exact foldl_push_flatMap_congr referred _ collected
  rw [baseDependencies, distinct_append_congr hreferences, inputProducers_eq,
    distinct_eq_eraseDups]
  rfl

theorem conditionGuard_eq (e condition : σ) :
    conditionGuard (baseDependencies e) condition = conditionNode e condition := by
  rw [conditionGuard, conditionNode, conditionProducers, distinct_distinct_append,
    distinct_eq_eraseDups, baseDependencies_eq]
  rfl

theorem whenGuard_eq (e expression : σ) :
    whenGuard (fieldText? e "name") (baseDependencies e) expression = whenNode e expression := by
  rw [whenGuard, whenNode, referencedTasks, distinct_distinct_append, distinct_eq_eraseDups,
    baseDependencies_eq]
  rfl

theorem guards_eq (e : σ) : guards e = guardNodes e := by
  rw [guards, guardNodes]
  exact congr (congrArg _ (List.map_congr_left fun c _ => conditionGuard_eq e c))
    (List.map_congr_left fun w _ => whenGuard_eq e w)

theorem hasGuards_eq_false_iff {e : σ} :
    hasGuards e = false ↔ fieldItems e "conditions" = [] ∧ fieldItems e "when" = [] := by
  simp [hasGuards]

theorem ownNode_eq (e : σ) : ownNode e = taskNode e := by
  have hown : ownDependencies e (guards e)
      = if fieldItems e "conditions" = [] ∧ fieldItems e "when" = [] then base e
        else ((guardNodes e).filterMap (·.id)).eraseDups := by
    unfold ownDependencies
    cases hguards : hasGuards e with
    | false => rw [if_pos (hasGuards_eq_false_iff.1 hguards), baseDependencies_eq]; rfl
    | true =>
      have hnot : ¬ (fieldItems e "conditions" = [] ∧ fieldItems e "when" = []) := by
        rw [← hasGuards_eq_false_iff, hguards]
        exact Bool.noConfusion
      rw [if_neg hnot, if_pos rfl, guards_eq, distinct_eq_eraseDups]
  rw [ownNode, taskNode, hown]

theorem nodup_eraseDups (xs : List String) : xs.eraseDups.Nodup := by
  rw [← distinct_eq_eraseDups]
  exact nodup_distinct xs

theorem nodup_runAfter_guardNode {e : σ} {g : TaskNode} (h : g ∈ guardNodes e) :
    g.runAfter.Nodup := by
  rw [guardNodes, List.mem_append, List.mem_map, List.mem_map] at h
  rcases h with ⟨c, -, rfl⟩ | ⟨w, -, rfl⟩
  · exact nodup_eraseDups _
  · exact nodup_eraseDups _

theorem nodup_runAfter_taskNode (e : σ) : (taskNode e).runAfter.Nodup := by
  unfold taskNode
  simp only
  split
  · exact nodup_eraseDups _
  · exact nodup_eraseDups _

end Block

open Block

/-! ## Whole specs -/

theorem mainNodes_eq (spec : σ) :
    mainNodes spec = (entries spec "tasks").flatMap fun e => taskNode e :: guardNodes e := by
  unfold mainNodes
  congr 1
  funext e
  rw [block_eq, ownNode_eq, guards_eq]

theorem length_mainNodes (spec : σ) :
    (mainNodes spec).length = (entries spec "tasks").length + ((entries spec "tasks").map fun e =>
      (fieldItems e "conditions").length + (fieldItems e "when").length).sum := by
  rw [mainNodes_eq, List.length_flatMap]
  induction entries spec "tasks" with
  | nil => rfl
  | cons e es ih =>
    simp only [List.map_cons, List.sum_cons, List.length_cons, guardNodes, List.length_append,
      List.length_map] at ih ⊢
    omega

/-- Nothing runs after the same node twice. -/
theorem nodup_runAfter {spec : σ} {n : TaskNode} (h : n ∈ extract spec) : n.runAfter.Nodup := by
  rcases mem_extract.1 h with h | ⟨e, -, rfl⟩
  · rw [mainNodes_eq, List.mem_flatMap] at h
    obtain ⟨e, -, h⟩ := h
    rcases List.mem_cons.1 h with rfl | h
    · exact nodup_runAfter_taskNode e
    · exact nodup_runAfter_guardNode h
  · exact nodup_distinct _

/-- **A spec comes to one block for each of its tasks, and then its final tasks.** Of the items
under `tasks` and `finally` the mappings count. What a node of a block runs after is collected from
all that its entry states, in order and without repeats, and so no node runs after another twice. -/
theorem extract_eq_blocks (spec : σ) :
    extract spec = (((fieldItems spec "tasks").filter isMapping).flatMap fun e =>
        taskNode e :: (fieldItems e "conditions").map (conditionNode e)
          ++ (fieldItems e "when").map (whenNode e))
      ++ ((fieldItems spec "finally").filter isMapping).map (fun e =>
        { declare e with runAfter := sinks (mainNodes spec), isFinal := true }) ∧
    (extract spec).length = ((fieldItems spec "tasks").filter isMapping).length
      + ((fieldItems spec "finally").filter isMapping).length
      + (((fieldItems spec "tasks").filter isMapping).map fun e =>
          (fieldItems e "conditions").length + (fieldItems e "when").length).sum ∧
    (∀ e : σ, baseDependencies e = (stated e).eraseDups) ∧
    ∀ n ∈ extract spec, n.runAfter.Nodup := by
  refine ⟨?_, ?_, baseDependencies_eq, fun n => nodup_runAfter⟩
  · rw [extract]
    simp only [mainNodes_eq, List.cons_append]
    rfl
  · have hmain := length_mainNodes spec
    rw [extract, List.length_append, List.length_map, hmain]
    simp only [entries]
    omega

end PipelineLens
