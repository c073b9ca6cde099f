import Mathlib.Data.List.Pairwise
import PipelineLens.Proofs.Spec.Dependencies
/-!
# The ids of tasks and guards

The nodes of a spec take their ids from three sources: a task has its name, the guard of a condition
the name of the condition, and the guard of a `when` expression the name of its task and the input.
Tasks share no id where every entry has a name of its own. Guards share theirs when they stand for
one condition, and nothing keeps the id of a guard apart from the names of the tasks: two nodes with
one id are both guards just where also no condition and no `<task>:<input>` is the name of an entry
(`uniqueButGuards_extract_iff`).
-/
namespace PipelineLens

open SpecView

/-- Of two nodes with one id both are guards. -/
def UniqueButGuards (nodes : List TaskNode) : Prop :=
  nodes.Pairwise fun n m => n.id = m.id → n.kind.isGuard = true ∧ m.kind.isGuard = true

instance (nodes : List TaskNode) : Decidable (UniqueButGuards nodes) :=
  inferInstanceAs (Decidable (nodes.Pairwise fun n m =>
    n.id = m.id → n.kind.isGuard = true ∧ m.kind.isGuard = true))

/-- The nodes that are no guards. -/
def unguarded (nodes : List TaskNode) : List TaskNode := nodes.filter fun n => !n.kind.isGuard

theorem mem_unguarded {nodes : List TaskNode} {n : TaskNode} :
    n ∈ unguarded nodes ↔ n ∈ nodes ∧ n.kind.isGuard = false := by
  simp [unguarded]

/-- Ids are unique but for guards when no two tasks share one, and no guard has that of a task. -/
theorem uniqueButGuards_iff {nodes : List TaskNode} :
    UniqueButGuards nodes ↔ ((unguarded nodes).map (·.id)).Nodup ∧
      ∀ g ∈ nodes, g.kind.isGuard = true → g.id ∉ (unguarded nodes).map (·.id) := by
  have hnodup : ((unguarded nodes).map (·.id)).Nodup ↔ nodes.Pairwise fun n m =>
      n.kind.isGuard = false → m.kind.isGuard = false → n.id ≠ m.id := by
    simp only [List.Nodup, unguarded, List.pairwise_map, List.pairwise_filter,
      Bool.not_eq_true']
  simp only [hnodup, List.mem_map, mem_unguarded]
  constructor
  · intro h
    have : Std.Symm fun n m : TaskNode =>
        n.id = m.id → n.kind.isGuard = true ∧ m.kind.isGuard = true :=
      ⟨fun n m hnm hid => (hnm hid.symm).symm⟩
    refine ⟨h.imp fun hid hn _ heq => ?_, ?_⟩
    · rw [(hid heq).1] at hn
      cases hn
    · rintro g hg hguard ⟨n, ⟨hn, hplain⟩, hid⟩
      have hne : n ≠ g := by
        rintro rfl
        rw [hguard] at hplain
        cases hplain
      rw [(h.forall hn hg hne hid).1] at hplain
      cases hplain
  · rintro ⟨hplain, hguard⟩
    refine hplain.imp_of_mem fun {n m} hn hm h hid => ?_
    cases hkn : n.kind.isGuard <;> cases hkm : m.kind.isGuard
    · exact absurd hid (h hkn hkm)
    · exact absurd ⟨n, ⟨hn, hkn⟩, hid⟩ (hguard m hm hkm)
    · exact absurd ⟨m, ⟨hm, hkm⟩, hid.symm⟩ (hguard n hn hkn)
    · exact ⟨rfl, rfl⟩

variable {σ : Type} [SpecView σ]

/-- The names of all entries, those of the main list first. -/
def entryNames (spec : σ) : List (Option String) :=
  (entries spec "tasks" ++ entries spec "finally").map (fieldText? · "name")

/-! ## Tasks -/

theorem isGuard_finalTask (runAfter : List String) (e : σ) :
    (finalTask runAfter e).kind.isGuard = false := isGuard_ownNode e

theorem unguarded_block (e : σ) : unguarded (block e) = [ownNode e] := by
  have hguards : (guards e).filter (fun g => !g.kind.isGuard) = [] :=
    List.filter_eq_nil_iff.2 fun g hg => by simp [isGuard_of_mem hg]
  rw [unguarded, block_eq, List.filter_cons, hguards, isGuard_ownNode]
  rfl

theorem unguarded_mainNodes (spec : σ) :
    unguarded (mainNodes spec) = (entries spec "tasks").map ownNode := by
  rw [mainNodes, unguarded, List.filter_flatMap, List.map_eq_flatMap]
  exact congrArg (List.flatMap · _) (funext unguarded_block)

/-- The nodes that are no guards are those of the entries. -/
theorem unguarded_extract (spec : σ) :
    unguarded (extract spec) = (entries spec "tasks").map ownNode
      ++ (entries spec "finally").map (finalTask (sinks (mainNodes spec))) := by
  have hfinal : unguarded ((entries spec "finally").map (finalTask (sinks (mainNodes spec))))
      = (entries spec "finally").map (finalTask (sinks (mainNodes spec))) :=
    List.filter_eq_self.2 fun n hn => by
      obtain ⟨e, -, rfl⟩ := List.mem_map.1 hn
      rw [isGuard_finalTask, Bool.not_false]
  rw [extract, unguarded, List.filter_append]
  exact congr (congrArg _ (unguarded_mainNodes spec)) hfinal

/-- Tasks are known by their names. -/
theorem ids_unguarded (spec : σ) : (unguarded (extract spec)).map (·.id) = entryNames spec := by
  rw [unguarded_extract, entryNames, List.map_append, List.map_append, List.map_map, List.map_map]
  rfl

/-! ## Guards -/

/-- The guards among the nodes are those of the tasks of the main list. -/
theorem guard_mem_extract_iff {spec : σ} {g : TaskNode} :
    (g ∈ extract spec ∧ g.kind.isGuard = true) ↔ ∃ e ∈ entries spec "tasks", g ∈ guards e := by
  constructor
  · rintro ⟨hg, hguard⟩
    rcases mem_extract.1 hg with hg | ⟨e, -, rfl⟩
    · rcases mem_mainNodes.1 hg with ⟨e, -, rfl⟩ | hg
      · rw [isGuard_ownNode] at hguard
        cases hguard
      · exact mem_allGuards.1 hg
    · rw [isGuard_finalTask] at hguard
      cases hguard
  · rintro ⟨e, he, hg⟩
    exact ⟨mainNodes_subset spec (guard_mem (mem_allGuards.2 ⟨e, he, hg⟩)), isGuard_of_mem hg⟩

/-- **Ids are unique but for guards just where names are unique and no guard takes one.** The ids
that must be no names are the conditions of the tasks and, for their `when` expressions, the name of
the task and the input with a colon between them. -/
theorem uniqueButGuards_extract_iff (spec : σ) :
    UniqueButGuards (extract spec) ↔ (entryNames spec).Nodup ∧
      ∀ e ∈ entries spec "tasks",
        (∀ c ∈ fieldItems e "conditions", fieldText? c "conditionRef" ∉ entryNames spec) ∧
        ∀ w ∈ fieldItems e "when",
          some ((fieldText? e "name").getD "" ++ ":" ++ (fieldText? w "input").getD "")
            ∉ entryNames spec := by
  rw [uniqueButGuards_iff, ids_unguarded]
  refine and_congr_right fun _ => ?_
  constructor
  · intro h e he
    have hid : ∀ g ∈ guards e, g.id ∉ entryNames spec := fun g hg =>
      have ⟨hmem, hguard⟩ := guard_mem_extract_iff.2 ⟨e, he, hg⟩
      h g hmem hguard
    exact ⟨fun c hc => hid _ (mem_guards.2 (.inl ⟨c, hc, rfl⟩)),
      fun w hw => hid _ (mem_guards.2 (.inr ⟨w, hw, rfl⟩))⟩
  · intro h g hmem hguard
    obtain ⟨e, he, hg⟩ := guard_mem_extract_iff.1 ⟨hmem, hguard⟩
    rcases mem_guards.1 hg with ⟨c, hc, rfl⟩ | ⟨w, hw, rfl⟩
    · exact (h e he).1 c hc
    · exact (h e he).2 w hw

/-- The condition of the second task has the name of the first. -/
def clashingSpec : Json := .object [("tasks", .array [
  .object [("name", .string "a")],
  .object [("conditions", .array [.object [("conditionRef", .string "a")]]),
    ("name", .string "b")]])]

theorem not_uniqueButGuards_clashingSpec :
    none ∉ entryNames clashingSpec ∧ (entryNames clashingSpec).Nodup ∧
      ¬ UniqueButGuards (extract clashingSpec) := by
  decide

end PipelineLens
