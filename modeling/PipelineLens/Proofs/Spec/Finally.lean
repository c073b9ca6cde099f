import Mathlib.Data.List.Nodup
import Mathlib.Order.WellFoundedSet
import PipelineLens.Proofs.Spec.Order
/-!
# What final tasks wait for

A final task runs after the sinks of the main list only. Where the main list has no cycle, every
node of it leads to a sink, and so a final task comes after all of them (`final_after_main`).
-/
namespace PipelineLens

open Relation SpecView

variable {σ : Type} [SpecView σ]

/-- Where nothing comes back, a fact goes from what lies ahead to what lies behind: the relation is
well-founded backwards on finitely many elements. -/
theorem Acyclic.induction {α : Type} {r : α → α → Prop} (h : Acyclic r) (xs : List α)
    {P : α → Prop} (hP : ∀ s ∈ xs, (∀ t ∈ xs, r s t → P t) → P s) : ∀ s ∈ xs, P s := by
  have : IsStrictOrder α fun t s => TransGen r s t :=
    { irrefl := h
      trans := fun _ _ _ hts hsu => hsu.trans hts }
  have hwf := xs.finite_toSet.wellFoundedOn (r := fun t s => TransGen r s t)
  intro s hs
  exact hwf.induction hs fun s hs ih => hP s hs fun t ht hst => ih t ht (.single hst)

/-! ## Sinks -/

/-- The ids that no node at another place runs after, in order, with repeats. -/
def unawaitedIds (nodes : List TaskNode) : List String :=
  nodes.zipIdx.filterMap fun n =>
    n.1.id.filter fun id => ∀ m ∈ nodes.zipIdx, m.2 ≠ n.2 → id ∉ m.1.runAfter

theorem not_isAwaited (nodes : List TaskNode) (index : Nat) (id : String) :
    (!isAwaited nodes index id)
      = decide (∀ m ∈ nodes.zipIdx, m.2 ≠ index → id ∉ m.1.runAfter) := by
  rw [Bool.eq_iff_iff]
  simp [isAwaited]

theorem sinks_eq_unawaitedIds (nodes : List TaskNode) :
    sinks nodes = (unawaitedIds nodes).eraseDups := by
  rw [sinks_eq, distinct_eq_eraseDups, unawaitedIds]
  simp only [not_isAwaited]

theorem mem_sinks {nodes : List TaskNode} {s : String} :
    s ∈ sinks nodes ↔ ∃ n ∈ nodes.zipIdx, n.1.id = some s ∧
      ∀ m ∈ nodes.zipIdx, m.2 ≠ n.2 → s ∉ m.1.runAfter := by
  rw [sinks_eq_unawaitedIds, List.mem_eraseDups, unawaitedIds, List.mem_filterMap]
  simp only [Option.filter_eq_some_iff, decide_eq_true_eq]

/-- Every node has an id of its own, and the order that `runAfter` gives has no cycle. -/
structure Sortable (nodes : List TaskNode) : Prop where
  named : ∀ n ∈ nodes, n.id.isSome
  distinct : (nodes.map (·.id)).Nodup
  acyclic : Acyclic (Precedes nodes)

section
variable {nodes : List TaskNode} (h : Sortable nodes)
include h

/-- Ids tell places apart. -/
theorem Sortable.eq_of_id {n m : TaskNode × Nat} (hn : n ∈ nodes.zipIdx) (hm : m ∈ nodes.zipIdx)
    (hid : n.1.id = m.1.id) : n.2 = m.2 := by
  rw [List.mem_zipIdx_iff_getElem?] at hn hm
  have hlt : n.2 < (nodes.map (·.id)).length := by
    rw [List.length_map]
    exact (List.getElem?_eq_some_iff.1 hn).1
  refine (List.getElem?_inj hlt h.distinct).1 ?_
  rw [List.getElem?_map, List.getElem?_map, hn, hm, Option.map_some, Option.map_some, hid]

/-- What precedes no other node is a sink. -/
theorem Sortable.mem_sinks_of_last {s : String} {n : TaskNode} (hn : n ∈ nodes)
    (hs : n.id = some s) (hlast : ∀ t, ¬ Precedes nodes s t) : s ∈ sinks nodes := by
  obtain ⟨i, hi⟩ := List.mem_iff_getElem?.1 hn
  refine mem_sinks.2 ⟨(n, i), List.mem_zipIdx_iff_getElem?.2 hi, hs, fun m hm hne hrun => ?_⟩
  have hm' : m.1 ∈ nodes := List.fst_mem_of_mem_zipIdx hm
  obtain ⟨t, ht⟩ := Option.isSome_iff_exists.1 (h.named m.1 hm')
  refine hlast t ⟨?_, ⟨n, hn, hs⟩, m.1, hm', ht, hrun⟩
  rintro rfl
  exact hne (h.eq_of_id hm (List.mem_zipIdx_iff_getElem?.2 hi) (ht.trans hs.symm))

/-- Every node leads to a sink, if it is none itself. -/
theorem Sortable.exists_sink {s : String} {n : TaskNode} (hn : n ∈ nodes) (hs : n.id = some s) :
    ∃ t ∈ sinks nodes, ReflTransGen (Precedes nodes) s t := by
  have key := h.acyclic.induction (nodes.filterMap (·.id))
    (P := fun s => ∃ t ∈ sinks nodes, ReflTransGen (Precedes nodes) s t)
  -- from the last nodes backwards: a node that is none has a successor that leads to a sink
  refine key ?_ s (List.mem_filterMap.2 ⟨n, hn, hs⟩)
  intro s hmem ih
  obtain ⟨n, hn, hs⟩ := List.mem_filterMap.1 hmem
  by_cases hlast : ∃ t, Precedes nodes s t
  · obtain ⟨u, hsu⟩ := hlast
    obtain ⟨m, hm, hu, -⟩ := hsu.2.2
    obtain ⟨t, ht, hp⟩ := ih u (List.mem_filterMap.2 ⟨m, hm, hu⟩) hsu
    exact ⟨t, ht, .head hsu hp⟩
  · exact ⟨s, h.mem_sinks_of_last hn hs fun t ht => hlast ⟨t, ht⟩, .refl⟩

end

/-! ## Final tasks -/

theorem Precedes.mono {nodes others : List TaskNode} (h : nodes ⊆ others) {s t : String}
    (hp : Precedes nodes s t) : Precedes others s t := by
  obtain ⟨hne, ⟨n, hn, hs⟩, m, hm, ht, hrun⟩ := hp
  exact ⟨hne, ⟨n, h hn, hs⟩, m, h hm, ht, hrun⟩

/-- A sink precedes every final task with an id of its own. -/
theorem precedes_final {spec : σ} {e : σ} (he : e ∈ entries spec "finally") {f t : String}
    (hf : fieldText? e "name" = some f) (hapart : ∀ m ∈ mainNodes spec, m.id ≠ some f)
    (ht : t ∈ sinks (mainNodes spec)) : Precedes (extract spec) t f := by
  have hid := exists_id_of_mem_sinks ht
  refine ⟨?_, exists_id_extract hid, _, finalTask_mem he, hf, ht⟩
  rintro rfl
  obtain ⟨n, hn, hs⟩ := hid
  exact hapart n hn hs

/-- **Final tasks come last.** They run after exactly the ids that nothing else in the main list
runs after, each at its first place. Where the main list has no cycle, there is a path to each
final task from all of the main list. -/
theorem final_after_main (spec : σ) :
    (extract spec = mainNodes spec ++ (entries spec "finally").map fun e =>
      { declare e with
        runAfter := (unawaitedIds (mainNodes spec)).eraseDups
        isFinal := true }) ∧
    (Sortable (mainNodes spec) → ∀ e ∈ entries spec "finally", ∀ f, fieldText? e "name" = some f →
      (∀ m ∈ mainNodes spec, m.id ≠ some f) →
      ∀ (d : Graph.Decoration) (runs : List RunNode), runs.map (·.task) = extract spec →
      ∀ m ∈ mainNodes spec, ∀ s, m.id = some s →
        TransGen (Graph.Links (Graph.draw d runs)) s f) := by
  constructor
  · rw [← sinks_eq_unawaitedIds]
    rfl
  · intro h e he f hf hapart d runs hruns m hm s hs
    rw [Graph.links_draw, hruns]
    obtain ⟨t, ht, hp⟩ := h.exists_sink hm hs
    have hp' := ReflTransGen.mono (fun _ _ => Precedes.mono (mainNodes_subset spec)) s t hp
    exact .tail' hp' (precedes_final he hf hapart ht)

/-- `b` has a guard that takes a resource from `a`, and `e` comes after itself only. -/
def releaseSpec : Json := .object [
  ("finally", .array [.object [("name", .string "z")], .object [("name", .string "b")]]),
  ("tasks", .array [
    .object [
      ("conditions", .array [.object [("conditionRef", .string "c"),
        ("resources", .array [.object [("from", .array [.string "a"])]])]]),
      ("name", .string "b")],
    .object [("name", .string "a")],
    .object [("name", .string "e"), ("runAfter", .array [.string "e"])]])]

theorem final_after_main_releaseSpec : Sortable (mainNodes releaseSpec) ∧
    TransGen (Graph.Links (Graph.ofPipeline (extract releaseSpec) .default)) "a" "z" := by
  have hacyclic : Acyclic (Precedes (mainNodes releaseSpec)) := by
    refine acyclic_of_rank ["a", "c", "b", "e"].idxOf fun s t hp => ?_
    have hlt : ∀ s ∈ (mainNodes releaseSpec).filterMap (·.id),
        ∀ t ∈ (mainNodes releaseSpec).filterMap (·.id), Precedes (mainNodes releaseSpec) s t →
          ["a", "c", "b", "e"].idxOf s < ["a", "c", "b", "e"].idxOf t := by decide
    exact hlt s (List.mem_filterMap.2 hp.2.1) t
      (List.mem_filterMap.2 (hp.2.2.imp fun _ h => ⟨h.1, h.2.1⟩)) hp
  have h : Sortable (mainNodes releaseSpec) := ⟨by decide, by decide, hacyclic⟩
  obtain ⟨m, hm, hs⟩ : ∃ m ∈ mainNodes releaseSpec, m.id = some "a" := by decide
  exact ⟨h, (final_after_main releaseSpec).2 h _ List.mem_cons_self "z" rfl (by decide)
    ⟨false, .epoch, .default⟩ _ (map_task_plain _) m hm "a" hs⟩

end PipelineLens
