import PipelineLens.Proofs.Pointwise
import PipelineLens.Proofs.Spec.Dependencies
/-!
# Specs that look alike

Extraction reads a spec only through its view. `Simulation R` says that values related by `R` look
the same in every question that a view answers, places in the text aside. Each function of
extraction then finds the same in related values, and the tasks that come out differ in their
places only (`Simulation.unplaced_extract`).
-/
namespace PipelineLens

/-! ## Nodes without their places -/

/-- The node without its place in the text. -/
def TaskNode.unplaced (n : TaskNode) : TaskNode := { n with position := none }

theorem isAwaited_unplaced (nodes : List TaskNode) (index : Nat) (id : String) :
    isAwaited (nodes.map (·.unplaced)) index id = isAwaited nodes index id := by
  unfold isAwaited
  rw [List.zipIdx_map, List.any_map]
  rfl

/-- Places do not matter for what nothing runs after. -/
theorem sinks_unplaced (nodes : List TaskNode) :
    sinks (nodes.map (·.unplaced)) = sinks nodes := by
  simp only [sinks_eq, isAwaited_unplaced, List.zipIdx_map, List.filterMap_map]
  rfl

theorem sinks_eq_of_unplaced {xs ys : List TaskNode}
    (h : xs.map (·.unplaced) = ys.map (·.unplaced)) : sinks xs = sinks ys := by
  rw [← sinks_unplaced xs, h, sinks_unplaced]

open SpecView

/-- Where no value has a place, no node has one. -/
theorem unplaced_extract {σ : Type} [SpecView σ] (hplace : ∀ s : σ, offset? s = none) (spec : σ) :
    (extract spec).map (·.unplaced) = extract spec := by
  have hnone : ∀ n ∈ extract spec, n.position = none := by
    intro n hn
    rcases mem_extract.1 hn with hn | ⟨e, -, rfl⟩
    · rcases mem_mainNodes.1 hn with ⟨e, -, rfl⟩ | hg
      · exact hplace e
      · obtain ⟨e, -, hg⟩ := mem_allGuards.1 hg
        rcases mem_guards.1 hg with ⟨c, -, rfl⟩ | ⟨w, -, rfl⟩
        · exact hplace c
        · exact hplace w
    · exact hplace e
  have hsame : ∀ n ∈ extract spec, n.unplaced = n := by
    intro n hn
    rw [TaskNode.unplaced, ← hnone n hn]
  rw [List.map_congr_left hsame, List.map_id']

/-! ## Related values -/

variable {σ τ : Type} [SpecView σ] [SpecView τ]

/-- Related values answer alike: they have related values under the same keys, related items in the
same order, the same text, and are mappings both or neither. -/
structure Simulation (R : σ → τ → Prop) : Prop where
  field : ∀ {a b}, R a b → ∀ key, Option.Rel R (field? a key) (field? b key)
  item : ∀ {a b}, R a b → List.Forall₂ R (items a) (items b)
  text : ∀ {a b}, R a b → text? a = text? b
  mapping : ∀ {a b}, R a b → isMapping a = isMapping b

namespace Simulation

variable {R : σ → τ → Prop} (h : Simulation R) {a : σ} {b : τ}
include h

/-- Under a key both have nothing, or related values. -/
theorem field?_cases (hab : R a b) (key : String) :
    (field? a key = none ∧ field? b key = none) ∨
      ∃ x y, field? a key = some x ∧ field? b key = some y ∧ R x y := by
  have hrel := h.field hab key
  cases ha : field? a key with
  | none =>
    rw [ha] at hrel
    cases hb : field? b key with
    | none => exact .inl ⟨rfl, rfl⟩
    | some y =>
      rw [hb] at hrel
      cases hrel
  | some x =>
    rw [ha] at hrel
    cases hb : field? b key with
    | none =>
      rw [hb] at hrel
      cases hrel
    | some y =>
      rw [hb] at hrel
      cases hrel with
      | some hxy => exact .inr ⟨x, y, rfl, rfl, hxy⟩

theorem fieldText?_eq (hab : R a b) (key : String) : fieldText? a key = fieldText? b key := by
  unfold fieldText?
  rcases h.field?_cases hab key with ⟨ha, hb⟩ | ⟨x, y, ha, hb, hxy⟩
  · rw [ha, hb]
    rfl
  · rw [ha, hb]
    exact h.text hxy

theorem fieldItems_rel (hab : R a b) (key : String) :
    List.Forall₂ R (fieldItems a key) (fieldItems b key) := by
  unfold fieldItems
  rcases h.field?_cases hab key with ⟨ha, hb⟩ | ⟨x, y, ha, hb, hxy⟩
  · rw [ha, hb]
    exact .nil
  · rw [ha, hb]
    exact h.item hxy

theorem entries_rel (hab : R a b) (key : String) :
    List.Forall₂ R (entries a key) (entries b key) := by
  refine List.rel_filter (fun x y hxy => ?_) (h.fieldItems_rel hab key)
  exact iff_of_eq (congrArg (· = true) (h.mapping hxy))

/-! ## What a task runs after -/

theorem resourceProducers_eq (hab : R a b) : resourceProducers a = resourceProducers b :=
  filterMap_eq_of_forall₂ (h.fieldItems_rel hab "from") fun _ _ => h.text

theorem conditionProducers_eq (hab : R a b) : conditionProducers a = conditionProducers b := by
  unfold conditionProducers
  rw [flatMap_eq_of_forall₂ (h.fieldItems_rel hab "resources") fun _ _ => h.resourceProducers_eq]

theorem parameterTexts_eq (hab : R a b) : parameterTexts a = parameterTexts b := by
  unfold parameterTexts
  rcases h.field?_cases hab "value" with ⟨ha, hb⟩ | ⟨x, y, ha, hb, hxy⟩
  · rw [ha, hb]
  · simp only [ha, hb, h.text hxy]
    split
    · rfl
    · exact filterMap_eq_of_forall₂ (h.item hxy) fun _ _ => h.text

theorem explicitDependencies_eq (hab : R a b) :
    explicitDependencies a = explicitDependencies b :=
  filterMap_eq_of_forall₂ (h.fieldItems_rel hab "runAfter") fun _ _ => h.text

theorem inputProducers_eq (hab : R a b) : inputProducers a = inputProducers b := by
  unfold inputProducers
  rcases h.field?_cases hab "resources" with ⟨ha, hb⟩ | ⟨x, y, ha, hb, hxy⟩
  · rw [ha, hb]
  · simp only [ha, hb]
    exact flatMap_eq_of_forall₂ (h.fieldItems_rel hxy "inputs") fun _ _ => h.resourceProducers_eq

theorem parameterReferences_eq (hab : R a b) : parameterReferences a = parameterReferences b := by
  unfold parameterReferences
  rw [flatMap_eq_of_forall₂ (h.fieldItems_rel hab "params") fun _ _ => h.parameterTexts_eq]

theorem baseDependencies_eq (hab : R a b) : baseDependencies a = baseDependencies b := by
  unfold baseDependencies
  rw [h.explicitDependencies_eq hab, h.inputProducers_eq hab, h.parameterReferences_eq hab]

/-! ## Tasks and guards -/

theorem taskReference_eq (hab : R a b) : taskReference a = taskReference b := by
  unfold taskReference
  rcases h.field?_cases hab "taskRef" with ⟨ha, hb⟩ | ⟨x, y, ha, hb, hxy⟩
  · simp only [ha, hb]
    rcases h.field?_cases hab "taskSpec" with ⟨ha, hb⟩ | ⟨x, y, ha, hb, -⟩
    · rw [ha, hb]
      rfl
    · rw [ha, hb]
      rfl
  · simp only [ha, hb, h.fieldText?_eq hxy]

theorem unplaced_declare (hab : R a b) : (declare a).unplaced = (declare b).unplaced := by
  simp only [declare, TaskNode.unplaced, h.fieldText?_eq hab, h.taskReference_eq hab]

theorem unplaced_conditionGuard (base : List String) (hab : R a b) :
    (conditionGuard base a).unplaced = (conditionGuard base b).unplaced := by
  simp only [conditionGuard, TaskNode.unplaced, h.fieldText?_eq hab, h.conditionProducers_eq hab]

theorem unplaced_whenGuard (owner : Option String) (base : List String) (hab : R a b) :
    (whenGuard owner base a).unplaced = (whenGuard owner base b).unplaced := by
  simp only [whenGuard, whenText, TaskNode.unplaced, h.fieldText?_eq hab]

theorem unplaced_guards (hab : R a b) :
    (guards a).map (·.unplaced) = (guards b).map (·.unplaced) := by
  simp only [guards, List.map_append, List.map_map, h.baseDependencies_eq hab,
    h.fieldText?_eq hab]
  congr 1
  · exact map_eq_of_forall₂ (h.fieldItems_rel hab "conditions") fun _ _ =>
      h.unplaced_conditionGuard _
  · exact map_eq_of_forall₂ (h.fieldItems_rel hab "when") fun _ _ => h.unplaced_whenGuard _ _

theorem hasGuards_eq (hab : R a b) : hasGuards a = hasGuards b := by
  unfold hasGuards
  rw [isEmpty_eq_of_forall₂ (h.fieldItems_rel hab "conditions"),
    isEmpty_eq_of_forall₂ (h.fieldItems_rel hab "when")]

/-- The guards count for a task only by their ids. -/
theorem ownDependencies_eq (hab : R a b) :
    ownDependencies a (guards a) = ownDependencies b (guards b) := by
  have hids : (guards a).filterMap (·.id) = (guards b).filterMap (·.id) := by
    have := congrArg (List.filterMap (·.id)) (h.unplaced_guards hab)
    rwa [List.filterMap_map, List.filterMap_map] at this
  unfold ownDependencies
  rw [h.hasGuards_eq hab, h.baseDependencies_eq hab, hids]

theorem unplaced_ownNode (hab : R a b) : (ownNode a).unplaced = (ownNode b).unplaced := by
  change { (declare a).unplaced with runAfter := ownDependencies a (guards a) }
    = { (declare b).unplaced with runAfter := ownDependencies b (guards b) }
  rw [h.unplaced_declare hab, h.ownDependencies_eq hab]

theorem unplaced_block (hab : R a b) :
    (block a).map (·.unplaced) = (block b).map (·.unplaced) := by
  rw [block_eq, block_eq, List.map_cons, List.map_cons, h.unplaced_ownNode hab,
    h.unplaced_guards hab]

/-! ## Whole specs -/

theorem unplaced_mainNodes (hab : R a b) :
    (mainNodes a).map (·.unplaced) = (mainNodes b).map (·.unplaced) := by
  unfold mainNodes
  rw [List.map_flatMap, List.map_flatMap]
  exact flatMap_eq_of_forall₂ (h.entries_rel hab "tasks") fun _ _ => h.unplaced_block

theorem unplaced_finalTask (runAfter : List String) (hab : R a b) :
    (finalTask runAfter a).unplaced = (finalTask runAfter b).unplaced := by
  change { (declare a).unplaced with runAfter := runAfter, isFinal := true }
    = { (declare b).unplaced with runAfter := runAfter, isFinal := true }
  rw [h.unplaced_declare hab]

/-- **Extraction sees no more than the view.** The tasks of related specs are the same, one by one,
but for their places. -/
theorem unplaced_extract (hab : R a b) :
    (extract a).map (·.unplaced) = (extract b).map (·.unplaced) := by
  simp only [extract, List.map_append, List.map_map,
    sinks_eq_of_unplaced (h.unplaced_mainNodes hab)]
  rw [h.unplaced_mainNodes hab]
  congr 1
  exact map_eq_of_forall₂ (h.entries_rel hab "finally") fun _ _ => h.unplaced_finalTask _

end Simulation

end PipelineLens
