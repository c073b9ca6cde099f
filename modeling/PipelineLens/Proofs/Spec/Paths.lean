import Mathlib.Data.List.Nodup
import PipelineLens.Proofs.Spec.Order
/-!
# Order and cycles in the drawing of a spec

Where every node has an id of its own, the drawing orders tasks just as the spec does
(`links_iff_dependencyOf`). Where guards may share an id, they pass the dependencies of one task on
to another, and the drawing is free of cycles just when what tasks await is (`acyclic_links_iff`).
-/
namespace PipelineLens

open Relation SpecView

variable {σ : Type} [SpecView σ]

/-! ## An id for every node -/

/-- Every node has an id and shares it with no other, and tasks depend on tasks of the main list
only, unknown ones left aside. -/
structure Identified (spec : σ) : Prop where
  named : ∀ n ∈ extract spec, n.id.isSome
  distinct : ((extract spec).map (·.id)).Nodup
  grounded : Grounded spec

section
variable {spec : σ} (h : Identified spec)
include h

theorem Identified.eq_of_id {n m : TaskNode} (hn : n ∈ extract spec) (hm : m ∈ extract spec)
    (hid : n.id = m.id) : n = m :=
  List.inj_on_of_nodup_map h.distinct hn hm hid

theorem Identified.layered : Layered spec := by
  refine ⟨fun g hg => h.named g (mainNodes_subset spec (guard_mem hg)), ?_, ?_, h.grounded⟩
  · intro g hg id hid hname
    obtain ⟨e, he, hname⟩ := mem_taskNames.1 hname
    have heq : g = ownNode e := h.eq_of_id (mainNodes_subset spec (guard_mem hg))
      (mainNodes_subset spec (ownNode_mem he)) (hid.trans hname.symm)
    obtain ⟨e', -, hg⟩ := mem_allGuards.1 hg
    have := isGuard_of_mem hg
    rw [heq, isGuard_ownNode] at this
    cases this
  · intro e he name hname n hn hid
    have heq := h.eq_of_id (mainNodes_subset spec hn) (finalTask_mem he) (hid.trans hname.symm)
    have := isFinal_of_mem_mainNodes hn
    rw [heq] at this
    cases this

theorem Identified.unshared : Unshared spec := by
  -- the nodes of the main list, each with the entry that it comes from
  let owned := (entries spec "tasks").flatMap fun e => (block e).map (e, ·)
  have hids : owned.map (·.2.id) = (mainNodes spec).map (·.id) := by
    simp [owned, mainNodes, List.map_flatMap, Function.comp_def]
  have hnodup : (owned.map (·.2.id)).Nodup := by
    have := h.distinct
    rw [extract, List.map_append] at this
    exact hids ▸ this.of_append_left
  rintro e he e' he' id ⟨g, hg, hid⟩ ⟨g', hg', hid'⟩
  have hmem : ∀ {e : σ} {g : TaskNode},
      e ∈ entries spec "tasks" → g ∈ guards e → (e, g) ∈ owned := by
    intro e g he hg
    exact List.mem_flatMap.2 ⟨e, he, by simp [block_eq, hg]⟩
  have := List.inj_on_of_nodup_map hnodup (hmem he hg) (hmem he' hg') (hid.trans hid'.symm)
  exact congrArg Prod.fst this

end

/-- Steps from a task to itself lead nowhere. -/
theorem Layered.reflTransGen_of_dependencyOf {spec : σ} (h : Layered spec) {d t : String}
    (hp : TransGen (Among (taskNames spec) (DependencyOf spec)) d t) :
    ReflTransGen (Among (taskNames spec) (AwaitedBy spec)) d t := by
  have step : ∀ {s u}, Among (taskNames spec) (DependencyOf spec) s u →
      ReflTransGen (Among (taskNames spec) (AwaitedBy spec)) s u := by
    rintro s u ⟨hs, hu, hdep⟩
    by_cases hne : s = u
    · rw [hne]
    · exact .single ⟨hs, hu, h.awaitedBy_of_dependencyOf hdep hne⟩
  induction hp with
  | single hs => exact step hs
  | tail _ hs ih => exact ih.trans (step hs)

/-- **The drawing keeps the order of the spec.** Between two different tasks of the main list there
is a path just when the spec lets the one depend on the other, directly or through further tasks:
neither guards nor dropped edges lose or add anything. -/
theorem links_iff_dependencyOf {spec : σ} (options : Options) (h : Identified spec) {d t : String}
    (hd : d ∈ taskNames spec) (ht : t ∈ taskNames spec) (hne : d ≠ t) :
    TransGen (Graph.Links (Graph.ofPipeline (extract spec) options)) d t
      ↔ TransGen (Among (taskNames spec) (DependencyOf spec)) d t := by
  rw [Graph.links_ofPipeline, h.layered.transGen_precedes_iff hd ht]
  constructor
  · intro hp
    refine TransGen.mono (fun s u hs => ?_) d t hp
    exact ⟨hs.1, hs.2.1, h.unshared.dependencyOf_of_awaitedBy hs.2.2⟩
  · intro hp
    rcases reflTransGen_iff_eq_or_transGen.1 (h.layered.reflTransGen_of_dependencyOf hp)
      with heq | hp
    · exact absurd heq.symm hne
    · exact hp

/-- `b` has two guards and depends on itself, `d` comes after it, and `ghost` is no task. -/
def guardedSpec : Json := .object [
  ("finally", .array [.object [("name", .string "z")]]),
  ("tasks", .array [
    .object [("name", .string "d"), ("runAfter", .array [.string "d", .string "b"])],
    .object [
      ("conditions", .array [.object [("conditionRef", .string "c"),
        ("resources", .array [.object [("from", .array [.string "a"])]])]]),
      ("name", .string "b"), ("runAfter", .array [.string "b", .string "ghost"]),
      ("when", .array [.object [("input", .string "$(tasks.a.results.x)")]])],
    .object [("name", .string "a")]])]

theorem links_guardedSpec : Identified guardedSpec ∧
    TransGen (Graph.Links (Graph.ofPipeline (extract guardedSpec) .default)) "a" "d" := by
  have h : Identified guardedSpec :=
    ⟨by decide +kernel, by decide +kernel, by decide +kernel⟩
  refine ⟨h, (links_iff_dependencyOf .default h (by decide) (by decide) (by decide)).2 ?_⟩
  have hb : DependencyOf guardedSpec "a" "b" := by
    refine ⟨_, List.mem_cons_of_mem _ List.mem_cons_self, rfl, ?_⟩
    decide +kernel
  have hd : DependencyOf guardedSpec "b" "d" := by
    refine ⟨_, List.mem_cons_self, rfl, ?_⟩
    decide +kernel
  exact .head ⟨by decide, by decide, hb⟩ (.single ⟨by decide, by decide, hd⟩)

/-! ## Guards with one id -/

/-- Entries have names of their own, conditions have references, no guard is called like a task, and
tasks depend on tasks of the main list only, unknown ones left aside. -/
structure WellNamed (spec : σ) : Prop where
  named : ∀ e ∈ entries spec "tasks" ++ entries spec "finally", (fieldText? e "name").isSome
  distinct : ((entries spec "tasks" ++ entries spec "finally").map (fieldText? · "name")).Nodup
  conditions : ∀ e ∈ entries spec "tasks", ∀ c ∈ fieldItems e "conditions",
    (fieldText? c "conditionRef").isSome
  apart : ∀ g ∈ allGuards spec, ∀ e ∈ entries spec "tasks" ++ entries spec "finally",
    g.id ≠ fieldText? e "name"
  grounded : Grounded spec

theorem WellNamed.layered {spec : σ} (h : WellNamed spec) : Layered spec := by
  refine ⟨?_, ?_, ?_, h.grounded⟩
  · intro g hg
    obtain ⟨e, he, hg⟩ := mem_allGuards.1 hg
    rcases mem_guards.1 hg with ⟨c, hc, rfl⟩ | ⟨w, -, rfl⟩
    · exact h.conditions e he c hc
    · rfl
  · intro g hg id hid hname
    obtain ⟨e, he, hname⟩ := mem_taskNames.1 hname
    exact h.apart g hg e (List.mem_append_left _ he) (hid.trans hname.symm)
  · intro f hf name hname n hn hid
    rcases exists_id_mainNodes.1 ⟨n, hn, hid⟩ with htask | ⟨g, hg, hguard⟩
    · obtain ⟨e, he, htask⟩ := mem_taskNames.1 htask
      have hdistinct := h.distinct
      rw [List.map_append] at hdistinct
      exact hdistinct.disjoint (List.mem_map.2 ⟨e, he, htask⟩) (List.mem_map.2 ⟨f, hf, hname⟩)
    · exact h.apart g hg f (List.mem_append_right _ hf) (hguard.trans hname.symm)

/-- **The drawing has a cycle just when tasks await each other.** Where no two tasks share a guard
id, that takes a cycle among the dependencies. -/
theorem acyclic_links_iff {spec : σ} (options : Options) (h : WellNamed spec) :
    (Acyclic (Graph.Links (Graph.ofPipeline (extract spec) options))
      ↔ Acyclic (Among (taskNames spec) (AwaitedBy spec))) ∧
    (Unshared spec → Acyclic (Among (taskNames spec) (DependencyOf spec)) →
      Acyclic (Graph.Links (Graph.ofPipeline (extract spec) options))) := by
  rw [Graph.links_ofPipeline, h.layered.acyclic_precedes_iff]
  refine ⟨Iff.rfl, fun hu hacyclic t hp => hacyclic t (TransGen.mono (fun s u hs => ?_) t t hp)⟩
  exact ⟨hs.1, hs.2.1, hu.dependencyOf_of_awaitedBy hs.2.2⟩

/-- The guard of a condition without resources. -/
def conditionEntry (ref : String) : Json := .object [("conditionRef", .string ref)]

/-- Two tasks with one condition, and a third that comes after one of them. -/
def sharedGuardSpec : Json := .object [("tasks", .array [
  .object [("conditions", .array [conditionEntry "c"]), ("name", .string "a")],
  .object [("conditions", .array [conditionEntry "c"]), ("name", .string "b")],
  .object [("name", .string "d"), ("runAfter", .array [.string "a"])]])]

theorem acyclic_sharedGuardSpec : WellNamed sharedGuardSpec ∧ ¬ Unshared sharedGuardSpec ∧
    Acyclic (Graph.Links (Graph.ofPipeline (extract sharedGuardSpec) .default)) := by
  have h : WellNamed sharedGuardSpec := by
    constructor <;> decide
  refine ⟨h, ?_, (acyclic_links_iff .default h).1.2 (acyclic_among (by decide))⟩
  intro hu
  have := hu _ List.mem_cons_self _ (List.mem_cons_of_mem _ List.mem_cons_self) "c"
    (by decide) (by decide)
  exact absurd (congrArg (fieldText? · "name") this) (by decide)

/-- Two tasks with one condition, of which the second comes after the first. -/
def sharedConditionSpec : Json := .object [("tasks", .array [
  .object [("conditions", .array [conditionEntry "c"]), ("name", .string "a")],
  .object [("conditions", .array [conditionEntry "c"]), ("name", .string "b"),
    ("runAfter", .array [.string "a"])]])]

/-- The one node `c` waits for `a`, as a guard of `b`, and `a` waits for it. -/
theorem cyclic_sharedConditionSpec : WellNamed sharedConditionSpec ∧
    Acyclic (Among (taskNames sharedConditionSpec) (DependencyOf sharedConditionSpec)) ∧
    ¬ Acyclic (Graph.Links (Graph.ofPipeline (extract sharedConditionSpec) .default)) := by
  refine ⟨by constructor <;> decide, acyclic_among (by decide), fun hacyclic => ?_⟩
  rw [Graph.links_ofPipeline] at hacyclic
  have hac : Precedes (extract sharedConditionSpec) "a" "c" := by decide
  have hca : Precedes (extract sharedConditionSpec) "c" "a" := by decide
  exact hacyclic "a" (.head hac (.single hca))

end PipelineLens
