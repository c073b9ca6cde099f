import Mathlib.Data.List.Nodup
import PipelineLens.Graph.Network
/-!
# What the graph of tasks gives back

All edges go into one graph and come back node by node, sorted by their numbers. `sorted_addEdge`
says what one edge changes, `sorted_connect` what a run of edges does, and `predecessors_ofTasks`
that a task gets back the sources that it put in: in the order in which it named them, repeats kept,
and nothing from other tasks.
-/
namespace PipelineLens.Graph

open Multigraph

namespace TaskGraph

/-! ## The edges of one task -/

/-- Of all edges, those that end at a task's own node are the ones that it asked for. -/
theorem filter_edgesOf (owners : Owners) {nodes : List (RunNode × Nat)}
    (hn : (nodes.map (·.2)).Nodup) {t : RunNode} {n : Nat} (h : (t, n) ∈ nodes) :
    ((nodes.flatMap (edgesOf owners)).filter (·.2 = n)).map (·.1) = sourcesOf owners t := by
  have one : ∀ p : RunNode × Nat, ((edgesOf owners p).filter (·.2 = n)).map (·.1)
      = if p.2 = n then sourcesOf owners p.1 else [] := by
    intro p
    by_cases hp : p.2 = n <;> simp [edgesOf, List.filter_map, Function.comp_def, hp]
  induction nodes with
  | nil => cases h
  | cons p ps ih =>
    rw [List.map_cons, List.nodup_cons] at hn
    rw [List.flatMap_cons, List.filter_append, List.map_append, one]
    rcases List.mem_cons.1 h with rfl | h
    · have hnone : ∀ q ∈ ps, ((edgesOf owners q).filter (·.2 = n)).map (·.1) = [] := by
        intro q hq
        rw [one, if_neg fun e => hn.1 (List.mem_map.2 ⟨q, hq, e⟩)]
      simpa [List.filter_flatMap, List.map_flatMap] using hnone
    · rw [if_neg fun e => hn.1 (List.mem_map.2 ⟨(t, n), h, e.symm⟩), ih hn.2 h, List.nil_append]

variable {γ : Type} [Multigraph γ]

/-! ## Sorting by number -/

/-- No two edges that end at a node have the same number. -/
def Numbered (g : γ) : Prop := ∀ n, ((incoming g n).map (·.1)).Nodup

theorem pairwise_sorted {g : γ} (h : Numbered g) (n : Nat) :
    (sorted g n).Pairwise fun a b => a.1 < b.1 := by
  have hle : (sorted g n).Pairwise fun a b => a.1 ≤ b.1 := by
    have : (sorted g n).Pairwise fun a b => decide (a.1 ≤ b.1) = true :=
      List.pairwise_mergeSort (by intro a b c; simp; omega) (by intro a b; simp; omega) _
    simpa using this
  have hne : (sorted g n).Pairwise fun a b => a.1 ≠ b.1 := by
    rw [← List.pairwise_map (f := Prod.fst) (R := (· ≠ ·))]
    exact (((List.mergeSort_perm _ _).map _).nodup_iff).2 (h n)
  exact hle.imp₂ (fun a b h₁ h₂ => Nat.lt_of_le_of_ne h₁ h₂) hne

/-- A list with rising numbers is what sorting gives. -/
theorem sorted_eq {g : γ} (h : Numbered g) {n : Nat} {es : List (Nat × Nat)}
    (hp : (incoming g n).Perm es) (hes : es.Pairwise fun a b => a.1 < b.1) : sorted g n = es := by
  refine List.Perm.eq_of_pairwise ?_ (pairwise_sorted h n) hes
    ((List.mergeSort_perm _ _).trans hp)
  intro a b _ _ hab hba
  exact absurd hba (Nat.lt_asymm hab)

/-! ## The nodes of the tasks -/

/-- There are nodes for the first `count` positions, and no edges. -/
structure Unlinked (g : TaskGraph γ) (count : Nat) : Prop where
  weights : g.nodes.toList.map (weight? g.graph) = (List.range count).map some
  incoming_eq : ∀ n, incoming g.graph n = []

theorem Unlinked.nodup {g : TaskGraph γ} {count : Nat} (h : g.Unlinked count) :
    g.nodes.toList.Nodup := by
  refine List.Nodup.of_map (weight? g.graph) ?_
  rw [h.weights]
  exact List.nodup_range.map fun _ _ => Option.some.inj

theorem Unlinked.size {g : TaskGraph γ} {count : Nat} (h : g.Unlinked count) :
    g.nodes.size = count := by
  simpa using congrArg List.length h.weights

/-- The weight of a node is the position of its task. -/
theorem Unlinked.weight {g : TaskGraph γ} {count : Nat} (h : g.Unlinked count) {i n : Nat}
    (hi : g.nodes[i]? = some n) : weight? g.graph n = some i := by
  have hlt : i < count := h.size ▸ (Array.getElem?_eq_some_iff.1 hi).1
  have := congrArg (·[i]?) h.weights
  simpa [hi, hlt] using this

/-- Both ends of every edge are nodes. -/
def Joins (g : γ) (edges : List (Nat × Nat)) : Prop :=
  ∀ e ∈ edges, (weight? g e.1).isSome ∧ (weight? g e.2).isSome

/-- The position of the first task with this id. -/
def owner? (tasks : List RunNode) (id : String) : Option Nat :=
  tasks.findIdx? fun t => t.task.id = some id

/-- The positions of the tasks that a task runs after: the first task with each id, in the order in
which the task names them. -/
def sourcePositions (tasks : List RunNode) (t : RunNode) : List Nat :=
  match t.task.id with
  | none => []
  | some id => (t.task.runAfter.filter (· ≠ id)).filterMap (owner? tasks)

section
variable {g : TaskGraph γ} {tasks : List RunNode} (h : g.Unlinked tasks.length)
include h

/-- A task and its node stand at one position. -/
theorem Unlinked.zip {t : RunNode} {n : Nat} (hm : (t, n) ∈ tasks.zip g.nodes.toList) :
    ∃ i : Nat, tasks[i]? = some t ∧ g.nodes[i]? = some n ∧ weight? g.graph n = some i := by
  obtain ⟨i, hi⟩ := List.mem_iff_getElem?.1 hm
  obtain ⟨ht, hn⟩ := List.getElem?_zip_eq_some.1 hi
  rw [Array.getElem?_toList] at hn
  exact ⟨i, ht, hn, h.weight hn⟩

theorem Unlinked.map_fst : (tasks.zip g.nodes.toList).map (·.1) = tasks :=
  List.map_fst_zip (by simp [h.size])

theorem Unlinked.map_snd : (tasks.zip g.nodes.toList).map (·.2) = g.nodes.toList :=
  List.map_snd_zip (by simp [h.size])

/-- The weight of the node that owns an id is the position of the first task with the id. -/
theorem Unlinked.bind_owners (id : String) :
    ((Owners.ofNodes (tasks.zip g.nodes.toList))[id]?).bind (weight? g.graph)
      = owner? tasks id := by
  have hidx : owner? tasks id
      = (tasks.zip g.nodes.toList).findIdx? fun t => t.1.task.id = some id := by
    rw [owner?, ← congrArg (List.findIdx? _) h.map_fst, List.findIdx?_map]
    rfl
  rw [Owners.getElem?_ofNodes, List.find?_eq_bind_findIdx?_getElem?, ← hidx]
  cases ho : owner? tasks id with
  | none => rfl
  | some i =>
    obtain ⟨hi, -⟩ := List.findIdx?_eq_some_iff_getElem.1 ho
    have hn : i < g.nodes.size := h.size ▸ hi
    have hz : (tasks.zip g.nodes.toList)[i]? = some (tasks[i], g.nodes[i]) :=
      List.getElem?_zip_eq_some.2 ⟨List.getElem?_eq_getElem hi, by simp [hn]⟩
    simp [hz, h.weight (Array.getElem?_eq_getElem hn)]

theorem Unlinked.filterMap_sourcesOf (t : RunNode) :
    (sourcesOf (.ofNodes (tasks.zip g.nodes.toList)) t).filterMap (weight? g.graph)
      = sourcePositions tasks t := by
  cases ht : t.task.id with
  | none => simp [sourcesOf, sourcePositions, ht]
  | some id => simp only [sourcesOf, sourcePositions, ht, List.filterMap_filterMap, h.bind_owners]

/-- Edges are drawn between nodes of tasks only. -/
theorem Unlinked.joins :
    Joins g.graph ((tasks.zip g.nodes.toList).flatMap
      (edgesOf (.ofNodes (tasks.zip g.nodes.toList)))) := by
  intro e he
  obtain ⟨⟨t, n⟩, ht, he⟩ := List.mem_flatMap.1 he
  obtain ⟨m, hm, rfl⟩ := List.mem_map.1 he
  obtain ⟨i, -, -, hn⟩ := h.zip ht
  refine ⟨?_, by simp [hn]⟩
  unfold sourcesOf at hm
  split at hm
  · cases hm
  · obtain ⟨dependency, -, hd⟩ := List.mem_filterMap.1 hm
    rw [Owners.getElem?_ofNodes, Option.map_eq_some_iff] at hd
    obtain ⟨⟨s, k⟩, hf, rfl⟩ := hd
    obtain ⟨j, -, -, hk⟩ := h.zip (List.mem_of_find?_eq_some hf)
    simp [hk]

end

variable [LawfulMultigraph γ]

theorem unlinked_addTask {g : TaskGraph γ} {count : Nat} (h : g.Unlinked count) :
    (g.addTask count).Unlinked (count + 1) where
  weights := by
    have hold : g.nodes.toList.map (weight? (addNode g.graph count).1)
        = g.nodes.toList.map (weight? g.graph) := by
      refine List.map_congr_left fun n hn => ?_
      obtain ⟨i, -, hi⟩ := List.mem_map.1 (h.weights ▸ List.mem_map_of_mem hn)
      rw [← hi, LawfulMultigraph.weight?_addNode _ _ _ _ hi.symm]
    simp [addTask, hold, h.weights, LawfulMultigraph.weight?_addNode_self, List.range_succ]
  incoming_eq n := by
    have := LawfulMultigraph.incoming_addNode g.graph count n
    rw [h.incoming_eq n] at this
    exact this.eq_nil

theorem unlinked_ofCount (count : Nat) : (ofCount count : TaskGraph γ).Unlinked count := by
  induction count with
  | zero => exact ⟨by simp [ofCount], LawfulMultigraph.incoming_empty⟩
  | succ count ih =>
    rw [ofCount, List.range_succ, List.foldl_append, List.foldl_cons, List.foldl_nil, ← ofCount]
    exact unlinked_addTask ih

/-! ## One edge -/

section
variable {g : γ} {s t : Nat} (hs : (weight? g s).isSome) (ht : (weight? g t).isSome)
include hs ht

theorem numbered_addEdge (h : Numbered g) : Numbered (addEdge g s t).1 := by
  intro n
  rw [((LawfulMultigraph.incoming_addEdge g s t n hs ht).map _).nodup_iff]
  split
  · rw [List.map_cons, List.nodup_cons]
    refine ⟨fun hm => ?_, h n⟩
    obtain ⟨e, he, heq⟩ := List.mem_map.1 hm
    have := LawfulMultigraph.lt_addEdge g s t n hs ht e he
    omega
  · exact h n

/-- An edge comes back last at its target, and nowhere else. -/
theorem sorted_addEdge (h : Numbered g) (n : Nat) :
    sorted (addEdge g s t).1 n
      = sorted g n ++ if t = n then [((addEdge g s t).2, s)] else [] := by
  have hp := LawfulMultigraph.incoming_addEdge g s t n hs ht
  apply sorted_eq (numbered_addEdge hs ht h)
  · have hg : (incoming g n).Perm (sorted g n) := (List.mergeSort_perm _ _).symm
    split
    · rename_i htn
      rw [if_pos htn] at hp
      exact hp.trans ((hg.cons _).trans (List.perm_append_singleton _ _).symm)
    · rename_i htn
      rw [if_neg htn] at hp
      simpa using hp.trans hg
  · rw [List.pairwise_append]
    refine ⟨pairwise_sorted h n, by split <;> simp, ?_⟩
    intro e he f hf
    split at hf
    · obtain rfl := List.mem_singleton.1 hf
      exact LawfulMultigraph.lt_addEdge g s t n hs ht e (List.mem_mergeSort.1 he)
    · cases hf

end

/-! ## A run of edges -/

theorem joins_addEdge {g : γ} {e : Nat × Nat} {es : List (Nat × Nat)} (h : Joins g (e :: es)) :
    Joins (addEdge g e.1 e.2).1 es := by
  obtain ⟨hs, ht⟩ := h e (by simp)
  intro f hf
  rw [LawfulMultigraph.weight?_addEdge g e.1 e.2 f.1 hs ht,
    LawfulMultigraph.weight?_addEdge g e.1 e.2 f.2 hs ht]
  exact h f (by simp [hf])

theorem weight?_connect {g : γ} {edges : List (Nat × Nat)} (h : Joins g edges) (n : Nat) :
    weight? (connect g edges) n = weight? g n := by
  induction edges generalizing g with
  | nil => rfl
  | cons e es ih =>
    obtain ⟨hs, ht⟩ := h e (by simp)
    rw [connect, List.foldl_cons, ← connect, ih (joins_addEdge h),
      LawfulMultigraph.weight?_addEdge g e.1 e.2 n hs ht]

/-- The sources at a node are those of the edges that were added with it as their target, in the
order in which they were added. -/
theorem sorted_connect {g : γ} {edges : List (Nat × Nat)} (hn : Numbered g) (h : Joins g edges)
    (n : Nat) :
    (sorted (connect g edges) n).map (·.2)
      = (sorted g n).map (·.2) ++ (edges.filter (·.2 = n)).map (·.1) := by
  induction edges generalizing g with
  | nil => simp [connect]
  | cons e es ih =>
    obtain ⟨hs, ht⟩ := h e (by simp)
    rw [connect, List.foldl_cons, ← connect, ih (numbered_addEdge hs ht hn) (joins_addEdge h),
      sorted_addEdge hs ht hn]
    by_cases hen : e.2 = n
    · simp [hen]
    · simp [hen]

/-! ## Tasks -/

/-- The edges that come back at the node of a task are those that the task asked for. -/
theorem Unlinked.sorted_connect {g : TaskGraph γ} {tasks : List RunNode}
    (h : g.Unlinked tasks.length) {t : RunNode} {n : Nat} (hm : (t, n) ∈ tasks.zip g.nodes.toList) :
    (sorted (connect g.graph ((tasks.zip g.nodes.toList).flatMap
      (edgesOf (.ofNodes (tasks.zip g.nodes.toList))))) n).map (·.2)
      = sourcesOf (.ofNodes (tasks.zip g.nodes.toList)) t := by
  have hnum : Numbered g.graph := fun n => by simp [h.incoming_eq]
  have hnone : sorted g.graph n = [] := by simp [sorted, h.incoming_eq]
  have hnodup : ((tasks.zip g.nodes.toList).map (·.2)).Nodup := by
    rw [h.map_snd]
    exact h.nodup
  rw [TaskGraph.sorted_connect hnum h.joins, hnone, List.map_nil, List.nil_append,
    filter_edgesOf _ hnodup hm]

/-- **A task gets back what it put in.** Neither the edges of other tasks nor the order in which a
graph lists its edges shows in the predecessors of a task. -/
theorem predecessors_ofTasks {tasks : List RunNode} {i : Nat} {t : RunNode}
    (hi : tasks[i]? = some t) :
    (ofTasks tasks : TaskGraph γ).predecessors i = sourcePositions tasks t := by
  have h : (ofCount tasks.length : TaskGraph γ).Unlinked tasks.length := unlinked_ofCount _
  -- only that it has nodes and no edges is used of the graph before the edges
  generalize hg : (ofCount tasks.length : TaskGraph γ) = g at h
  have hlt : i < g.nodes.size := h.size ▸ (List.getElem?_eq_some_iff.1 hi).1
  have hm : (t, g.nodes[i]) ∈ tasks.zip g.nodes.toList :=
    List.mem_of_getElem? (List.getElem?_zip_eq_some.2 ⟨hi, by simp [hlt]⟩)
  rw [← h.filterMap_sourcesOf, ← h.sorted_connect hm, List.filterMap_map]
  simp only [predecessors, ofTasks, hg, Array.getElem?_eq_getElem hlt,
    funext (weight?_connect h.joins)]
  rfl

end TaskGraph

end PipelineLens.Graph
