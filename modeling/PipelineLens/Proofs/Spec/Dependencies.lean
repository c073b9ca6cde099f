import PipelineLens.Spec.Extract
/-!
# What the tasks of a spec depend on

`dependencies` collects what an entry depends on, be it directly or through one of its guards. The
lemmas say where each dependency ends up: a task without guards keeps all of them
(`runAfter_ownNode_of_plain`), a guarded task runs after its guards only, and between them the
guards have exactly the dependencies of their task (`mem_dependencies_iff`).
-/
namespace PipelineLens

open SpecView

variable {σ : Type} [SpecView σ]

/-- What an entry depends on, with or without guards in between. -/
def dependencies (e : σ) : List String :=
  baseDependencies e ++ (fieldItems e "conditions").flatMap conditionProducers
    ++ (fieldItems e "when").flatMap fun w => (fieldText? w "input").toList.flatMap referencedTasks

/-- The names of the tasks of the main list. -/
def taskNames (spec : σ) : List String := (entries spec "tasks").filterMap (fieldText? · "name")

/-- The guards of all tasks. -/
def allGuards (spec : σ) : List TaskNode := (entries spec "tasks").flatMap guards

/-- A task with the name `t` depends on `d`. -/
def DependencyOf (spec : σ) (d t : String) : Prop :=
  ∃ e ∈ entries spec "tasks", fieldText? e "name" = some t ∧ d ∈ dependencies e

instance (spec : σ) : DecidableRel (DependencyOf spec) := fun d t =>
  inferInstanceAs (Decidable (∃ e ∈ entries spec "tasks",
    fieldText? e "name" = some t ∧ d ∈ dependencies e))

/-- What a task depends on is unknown or a task of the main list. -/
def Grounded (spec : σ) : Prop :=
  ∀ e ∈ entries spec "tasks", ∀ d ∈ dependencies e,
    (∃ n ∈ extract spec, n.id = some d) → d ∈ taskNames spec

instance (spec : σ) : Decidable (Grounded spec) :=
  inferInstanceAs (Decidable (∀ e ∈ entries spec "tasks", ∀ d ∈ dependencies e,
    (∃ n ∈ extract spec, n.id = some d) → d ∈ taskNames spec))

/-- The node of a task itself. -/
def ownNode (e : σ) : TaskNode := { declare e with runAfter := ownDependencies e (guards e) }

theorem block_eq (e : σ) : block e = ownNode e :: guards e := rfl

theorem mem_taskNames {spec : σ} {t : String} :
    t ∈ taskNames spec ↔ ∃ e ∈ entries spec "tasks", fieldText? e "name" = some t := by
  simp [taskNames]

theorem mem_allGuards {spec : σ} {g : TaskNode} :
    g ∈ allGuards spec ↔ ∃ e ∈ entries spec "tasks", g ∈ guards e := by
  simp [allGuards]

theorem mem_mainNodes {spec : σ} {n : TaskNode} :
    n ∈ mainNodes spec ↔ (∃ e ∈ entries spec "tasks", n = ownNode e) ∨ n ∈ allGuards spec := by
  simp only [mainNodes, List.mem_flatMap, block_eq, List.mem_cons, mem_allGuards]
  constructor
  · rintro ⟨e, he, rfl | hn⟩
    · exact Or.inl ⟨e, he, rfl⟩
    · exact Or.inr ⟨e, he, hn⟩
  · rintro (⟨e, he, rfl⟩ | ⟨e, he, hn⟩)
    · exact ⟨e, he, Or.inl rfl⟩
    · exact ⟨e, he, Or.inr hn⟩

theorem mem_extract {spec : σ} {n : TaskNode} :
    n ∈ extract spec ↔ n ∈ mainNodes spec ∨
      ∃ e ∈ entries spec "finally", n = finalTask (sinks (mainNodes spec)) e := by
  simp [extract, eq_comm]

theorem ownNode_mem {spec e : σ} (he : e ∈ entries spec "tasks") : ownNode e ∈ mainNodes spec :=
  mem_mainNodes.2 (Or.inl ⟨e, he, rfl⟩)

theorem guard_mem {spec : σ} {g : TaskNode} (hg : g ∈ allGuards spec) : g ∈ mainNodes spec :=
  mem_mainNodes.2 (Or.inr hg)

theorem finalTask_mem {spec e : σ} (he : e ∈ entries spec "finally") :
    finalTask (sinks (mainNodes spec)) e ∈ extract spec :=
  mem_extract.2 (Or.inr ⟨e, he, rfl⟩)

theorem mainNodes_subset (spec : σ) : mainNodes spec ⊆ extract spec :=
  fun _ hn => mem_extract.2 (Or.inl hn)

/-! ## Guards -/

theorem mem_guards {e : σ} {g : TaskNode} :
    g ∈ guards e ↔ (∃ c ∈ fieldItems e "conditions", g = conditionGuard (baseDependencies e) c) ∨
      ∃ w ∈ fieldItems e "when", g = whenGuard (fieldText? e "name") (baseDependencies e) w := by
  simp [guards, eq_comm]

theorem isGuard_of_mem {e : σ} {g : TaskNode} (h : g ∈ guards e) : g.kind.isGuard = true := by
  rcases mem_guards.1 h with ⟨c, -, rfl⟩ | ⟨w, -, rfl⟩ <;> rfl

theorem hasGuards_iff {e : σ} : hasGuards e = true ↔ ∃ g, g ∈ guards e := by
  simp only [hasGuards, Bool.or_eq_true, Bool.not_eq_true', List.isEmpty_eq_false_iff_exists_mem,
    mem_guards]
  constructor
  · rintro (⟨c, hc⟩ | ⟨w, hw⟩)
    · exact ⟨_, Or.inl ⟨c, hc, rfl⟩⟩
    · exact ⟨_, Or.inr ⟨w, hw, rfl⟩⟩
  · rintro ⟨g, ⟨c, hc, rfl⟩ | ⟨w, hw, rfl⟩⟩
    · exact Or.inl ⟨c, hc⟩
    · exact Or.inr ⟨w, hw⟩

/-- A missing input is read as the empty text, which refers to nothing. -/
theorem referencedTasks_whenText (expression : σ) : referencedTasks (whenText expression)
    = (fieldText? expression "input").toList.flatMap referencedTasks := by
  unfold whenText
  cases fieldText? expression "input" with
  | none =>
    rw [Option.getD_none, referencedTasks, references, String.toList_empty, Reference.scan]
    rfl
  | some input => rw [Option.getD_some, Option.toList_some, List.flatMap_singleton]

/-- A guard runs after its own part of the dependencies and all that stand without guards. -/
theorem mem_runAfter_guard {e : σ} {g : TaskNode} (hg : g ∈ guards e) {d : String}
    (hd : d ∈ g.runAfter) : d ∈ dependencies e := by
  rcases mem_guards.1 hg with ⟨c, hc, rfl⟩ | ⟨w, hw, rfl⟩
  · simp only [conditionGuard, mem_distinct, List.mem_append] at hd
    rcases hd with hd | hd
    · simp only [dependencies, List.mem_append, List.mem_flatMap]
      exact Or.inl (Or.inr ⟨c, hc, hd⟩)
    · simp [dependencies, hd]
  · simp only [whenGuard, mem_distinct, List.mem_append, referencedTasks_whenText] at hd
    rcases hd with hd | hd
    · simp only [dependencies, List.mem_append, List.mem_flatMap]
      exact Or.inr ⟨w, hw, List.mem_flatMap.1 hd⟩
    · simp [dependencies, hd]

theorem base_subset_runAfter {e : σ} {g : TaskNode} (hg : g ∈ guards e) {d : String}
    (hd : d ∈ baseDependencies e) : d ∈ g.runAfter := by
  rcases mem_guards.1 hg with ⟨c, -, rfl⟩ | ⟨w, -, rfl⟩
  · simp [conditionGuard, mem_distinct, hd]
  · simp [whenGuard, mem_distinct, hd]

/-- **Guards lose and add nothing.** The dependencies of a guarded task are those of its guards. -/
theorem mem_dependencies_iff {e : σ} (he : hasGuards e = true) {d : String} :
    d ∈ dependencies e ↔ ∃ g ∈ guards e, d ∈ g.runAfter := by
  constructor
  · intro hd
    simp only [dependencies, List.mem_append, List.mem_flatMap] at hd
    rcases hd with (hd | ⟨c, hc, hd⟩) | ⟨w, hw, hd⟩
    · obtain ⟨g, hg⟩ := hasGuards_iff.1 he
      exact ⟨g, hg, base_subset_runAfter hg hd⟩
    · exact ⟨_, mem_guards.2 (Or.inl ⟨c, hc, rfl⟩), by simp [conditionGuard, mem_distinct, hd]⟩
    · refine ⟨_, mem_guards.2 (Or.inr ⟨w, hw, rfl⟩), ?_⟩
      simp only [whenGuard, mem_distinct, List.mem_append, referencedTasks_whenText,
        List.mem_flatMap]
      exact Or.inl hd
  · rintro ⟨g, hg, hd⟩
    exact mem_runAfter_guard hg hd

/-! ## The task itself -/

theorem isGuard_ownNode (e : σ) : (ownNode e).kind.isGuard = false := by
  simp only [ownNode, declare, taskReference]
  split
  · rename_i reference _
    cases fieldText? reference "kind" with
    | none => rfl
    | some kind =>
      simp only [Option.map_some, Option.getD_some, TaskKind.ofReference]
      split
      · rfl
      · split <;> rfl
  · simp only
    split <;> rfl

theorem isFinal_of_mem_mainNodes {spec : σ} {n : TaskNode} (hn : n ∈ mainNodes spec) :
    n.isFinal = false := by
  rcases mem_mainNodes.1 hn with ⟨e, -, rfl⟩ | hg
  · rfl
  · obtain ⟨e, -, hg⟩ := mem_allGuards.1 hg
    rcases mem_guards.1 hg with ⟨c, -, rfl⟩ | ⟨w, -, rfl⟩ <;> rfl

theorem mem_runAfter_ownNode {e : σ} (he : hasGuards e = true) {d : String} :
    d ∈ (ownNode e).runAfter ↔ ∃ g ∈ guards e, g.id = some d := by
  simp [ownNode, ownDependencies, he, mem_distinct]

theorem dependencies_of_plain {e : σ} (he : hasGuards e = false) :
    dependencies e = baseDependencies e := by
  simp only [hasGuards, Bool.or_eq_false_iff, Bool.not_eq_false', List.isEmpty_iff] at he
  simp [dependencies, he.1, he.2]

theorem runAfter_ownNode_of_plain {e : σ} (he : hasGuards e = false) :
    (ownNode e).runAfter = dependencies e := by
  rw [dependencies_of_plain he]
  simp [ownNode, ownDependencies, he]

end PipelineLens
