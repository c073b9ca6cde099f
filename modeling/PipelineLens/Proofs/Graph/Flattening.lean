import PipelineLens.Graph.Draw
import PipelineLens.Proofs.Graph.Sources
/-!
# Drawing without a graph

`listing` says what a drawing is without any graph: each task's node, followed by one edge for each
entry of its `runAfter` that is the id of a task other than itself. `drawOn_eq_listing` says that
drawing through any lawful graph gives just that, whatever the ids are.
-/
namespace PipelineLens.Graph

open Multigraph

/-- The edge that an entry of the `runAfter` of the task `id` stands for. Its state is that of the
first task which the entry names. -/
def listedEdge? (d : Decoration) (tasks : List RunNode) (id dependency : String) : Option Edge :=
  if dependency = id then none
  else (tasks.find? fun t => t.task.id = some dependency).map fun source =>
    { id := dependency ++ "-" ++ id
      source := dependency
      target := id
      state := if d.withState then some source.state else none }

def listedEdges (d : Decoration) (tasks : List RunNode) (t : RunNode) : List Edge :=
  match t.task.id with
  | none => []
  | some id => t.task.runAfter.filterMap (listedEdge? d tasks id)

/-- Every task's node, followed by the edges that end at it. -/
def listing (d : Decoration) (tasks : List RunNode) : List Item :=
  tasks.flatMap fun t => .node (nodeOf d t) :: (listedEdges d tasks t).map .edge

theorem mem_listedEdges {d : Decoration} {tasks : List RunNode} {t : RunNode} {e : Edge} :
    e ∈ listedEdges d tasks t ↔ ∃ id dependency, t.task.id = some id ∧
      dependency ∈ t.task.runAfter ∧ listedEdge? d tasks id dependency = some e := by
  unfold listedEdges
  cases t.task.id with
  | none => simp
  | some id => simp [List.mem_filterMap]

theorem listedEdge?_eq_some {d : Decoration} {tasks : List RunNode} {id dependency : String}
    {e : Edge} (h : listedEdge? d tasks id dependency = some e) :
    dependency ≠ id ∧ e.source = dependency ∧ e.target = id ∧
      ∃ t ∈ tasks, t.task.id = some dependency := by
  unfold listedEdge? at h
  split at h
  · cases h
  · rename_i hne
    obtain ⟨t, ht, rfl⟩ := Option.map_eq_some_iff.1 h
    exact ⟨hne, rfl, rfl, t, List.mem_of_find?_eq_some ht, by simpa using List.find?_some ht⟩

theorem mem_listing_node {d : Decoration} {tasks : List RunNode} {n : Node} :
    .node n ∈ listing d tasks ↔ ∃ t ∈ tasks, n = nodeOf d t := by
  simp [listing]

theorem mem_listing_edge {d : Decoration} {tasks : List RunNode} {e : Edge} :
    .edge e ∈ listing d tasks ↔ ∃ t ∈ tasks, e ∈ listedEdges d tasks t := by
  simp [listing]

theorem filterMap_node?_listing (d : Decoration) (tasks : List RunNode) :
    (listing d tasks).filterMap Item.node? = tasks.map (nodeOf d) := by
  have h : ∀ es : List Edge, (es.map Item.edge).filterMap Item.node? = [] := by
    intro es
    simp [Item.node?]
  rw [listing, List.filterMap_flatMap, List.map_eq_flatMap]
  simp only [List.filterMap_cons, Item.node?, h]

/-- An edge joins two different nodes of the drawing. -/
theorem listing_edge {d : Decoration} {tasks : List RunNode} {e : Edge}
    (h : .edge e ∈ listing d tasks) :
    e.source ≠ e.target ∧ (∃ n, .node n ∈ listing d tasks ∧ n.id = some e.source) ∧
      ∃ n, .node n ∈ listing d tasks ∧ n.id = some e.target := by
  obtain ⟨t, ht, he⟩ := mem_listing_edge.1 h
  obtain ⟨id, dependency, hid, -, he⟩ := mem_listedEdges.1 he
  obtain ⟨hne, rfl, rfl, s, hs, hsid⟩ := listedEdge?_eq_some he
  exact ⟨hne, ⟨nodeOf d s, mem_listing_node.2 ⟨s, hs, rfl⟩, hsid⟩,
    ⟨nodeOf d t, mem_listing_node.2 ⟨t, ht, rfl⟩, hid⟩⟩

/-! ## One task -/

/-- The edge from the first task with an id. -/
theorem bind_owner? (d : Decoration) (tasks : List RunNode) (id dependency : String) :
    (TaskGraph.owner? tasks dependency).bind (edgeFrom? d tasks.toArray id)
      = (tasks.find? fun t => t.task.id = some dependency).map
          fun source => .edge (edgeOf d source.state dependency id) := by
  rw [List.find?_eq_bind_findIdx?_getElem?, ← TaskGraph.owner?]
  cases ho : TaskGraph.owner? tasks dependency with
  | none => rfl
  | some i =>
    obtain ⟨hi, hid, -⟩ := List.findIdx?_eq_some_iff_getElem.1 ho
    simp [edgeFrom?, hi, of_decide_eq_true hid]

theorem edgesTo_sourcePositions (d : Decoration) (tasks : List RunNode) (t : RunNode) :
    edgesTo d tasks.toArray (TaskGraph.sourcePositions tasks t) t
      = (listedEdges d tasks t).map .edge := by
  unfold edgesTo TaskGraph.sourcePositions listedEdges
  cases t.task.id with
  | none => rfl
  | some id =>
    simp only [List.filterMap_filterMap, List.filterMap_filter, List.map_filterMap]
    refine List.filterMap_congr fun dependency _ => ?_
    by_cases h : dependency = id
    · simp [listedEdge?, h]
    · simp only [h, ne_eq, not_false_eq_true, decide_true, if_true, bind_owner?, listedEdge?,
        if_false, Option.map_map]
      rfl

/-! ## Whole drawings -/

variable {γ : Type} [Multigraph γ] [LawfulMultigraph γ]

theorem drawOn_eq (d : Decoration) (tasks : List RunNode) : drawOn γ d tasks = listing d tasks := by
  have h : ∀ t ∈ tasks.zipIdx,
      (.node (nodeOf d t.1) :: edgesTo d tasks.toArray
        ((TaskGraph.ofTasks tasks : TaskGraph γ).predecessors t.2) t.1 : List Item)
      = .node (nodeOf d t.1) :: (listedEdges d tasks t.1).map .edge := by
    intro t ht
    rw [TaskGraph.predecessors_ofTasks (List.mem_zipIdx_iff_getElem?.1 ht),
      edgesTo_sourcePositions]
  calc drawOn γ d tasks
      = tasks.zipIdx.flatMap
          fun t => .node (nodeOf d t.1) :: (listedEdges d tasks t.1).map .edge := by
        rw [drawOn, List.flatMap_def, List.map_congr_left h, List.flatMap_def]
    _ = listing d tasks := by
        have := List.flatMap_map Prod.fst
          (fun t => (.node (nodeOf d t) :: (listedEdges d tasks t).map .edge : List Item))
          tasks.zipIdx
        rw [List.zipIdx_map_fst] at this
        exact this.symm

variable (γ) in
/-- **Drawing needs no graph.** Through any lawful graph, a drawing is the listing: a node for each
task, and edges that join two different nodes. -/
theorem drawOn_eq_listing (d : Decoration) (tasks : List RunNode) :
    drawOn γ d tasks = listing d tasks ∧
    (drawOn γ d tasks).filterMap Item.node? = tasks.map (nodeOf d) ∧
    ∀ e, .edge e ∈ drawOn γ d tasks → e.source ≠ e.target ∧
      (∃ n, .node n ∈ drawOn γ d tasks ∧ n.id = some e.source) ∧
      ∃ n, .node n ∈ drawOn γ d tasks ∧ n.id = some e.target := by
  rw [drawOn_eq]
  exact ⟨rfl, filterMap_node?_listing d tasks, fun _ => listing_edge⟩

/-- A task that comes before its dependencies, names one of them twice, itself and an unknown one,
and two tasks with one id, of which the first has failed. -/
def twins : List RunNode :=
  [.plain ⟨some "c", some "c", none, .task, ["b", "c", "x", "b"], none, false⟩,
    { RunNode.plain ⟨some "b", some "b", none, .task, [], none, false⟩ with state := .failed },
    .plain ⟨some "b", some "b", none, .task, ["c"], none, false⟩]

theorem drawOn_network_twins : LawfulMultigraph Network ∧
    (drawOn Network ⟨true, .epoch, .default⟩ twins).filterMap Item.edge?
      = [⟨"b-c", "b", "c", some .failed⟩, ⟨"b-c", "b", "c", some .failed⟩,
          ⟨"c-b", "c", "b", some .unknown⟩] := by
  refine ⟨inferInstance, ?_⟩
  rw [(drawOn_eq_listing Network ⟨true, .epoch, .default⟩ twins).1]
  decide

end PipelineLens.Graph
