import PipelineLens.Proofs.Graph.Flattening
/-!
# The shape of a drawing

Run data shows in the labels of nodes and in states, and nowhere else. What is left without them is
the skeleton of the tasks (`shape_draw`), so two drawings of the same tasks have one shape, whatever
is reported about a run, at whatever time and with whatever options (`ofRun_shape`). A label always
starts with the name of its task.
-/
namespace PipelineLens.Graph

namespace Item

/-- An item without a label. -/
def unlabelled : Item → Item
  | node n => node { n with label := "" }
  | edge e => edge e

/-- An item without a label and without a state. -/
def shape : Item → Item
  | node n => node { n with label := "", state := none }
  | edge e => edge { e with state := none }

def state? : Item → Option RunState
  | node n => n.state
  | edge e => e.state

end Item

/-! ## Skeletons -/

/-- The edge to the task `id` that an entry of its `runAfter` stands for: one from another task of
the list. -/
def bareEdge? (tasks : List TaskNode) (id dependency : String) : Option Item :=
  if dependency ≠ id ∧ some dependency ∈ tasks.map (·.id) then
    some (.edge ⟨dependency ++ "-" ++ id, dependency, id, none⟩)
  else none

def bareEdges (tasks : List TaskNode) (t : TaskNode) : List Item :=
  match t.id with
  | none => []
  | some id => t.runAfter.filterMap (bareEdge? tasks id)

/-- What the tasks alone say about their drawing: nodes without labels, and edges. -/
def skeleton (tasks : List TaskNode) : List Item :=
  tasks.flatMap fun t => .node ⟨t.id, "", t.kind.name?, t.taskRef, none⟩ :: bareEdges tasks t

variable {d : Decoration} {tasks : List RunNode}

theorem shape_listedEdge? (d : Decoration) (tasks : List RunNode) (id dependency : String) :
    (listedEdge? d tasks id dependency).map (fun e => (Item.edge e).shape)
      = bareEdge? (tasks.map (·.task)) id dependency := by
  unfold listedEdge? bareEdge?
  by_cases hself : dependency = id
  · simp [hself]
  · cases hfind : tasks.find? fun t => t.task.id = some dependency with
    | none =>
      have hnone : ∀ t ∈ tasks, t.task.id ≠ some dependency := by
        simpa using List.find?_eq_none.1 hfind
      simpa [hself] using hnone
    | some source =>
      have hmem : ∃ t ∈ tasks, t.task.id = some dependency :=
        ⟨source, List.mem_of_find?_eq_some hfind, by simpa using List.find?_some hfind⟩
      simpa [hself, Item.shape] using hmem

theorem shape_listedEdges (d : Decoration) (tasks : List RunNode) (t : RunNode) :
    (listedEdges d tasks t).map (fun e => (Item.edge e).shape)
      = bareEdges (tasks.map (·.task)) t.task := by
  unfold listedEdges bareEdges
  cases t.task.id with
  | none => rfl
  | some id =>
    simp only [List.map_filterMap]
    exact List.filterMap_congr fun dependency _ => shape_listedEdge? d tasks id dependency

/-- The shape of a drawing is the skeleton of its tasks. -/
theorem shape_draw (d : Decoration) (tasks : List RunNode) :
    (draw d tasks).map Item.shape = skeleton (tasks.map (·.task)) := by
  rw [draw, drawOn_eq, listing, skeleton, List.map_flatMap, List.flatMap_map]
  congr 1
  funext t
  rw [List.map_cons, List.map_map]
  exact congrArg _ (shape_listedEdges d tasks t)

theorem map_task_overlay (tasks : List TaskNode) (status : Option RunStatus) :
    (overlay tasks status).map (·.task) = tasks := by
  rw [overlay_eq, List.map_map]
  refine (List.map_congr_left fun task _ => ?_).trans (List.map_id tasks)
  rw [Function.comp_apply]
  cases status.bind (·.find? task) <;> rfl

theorem shape_ofRun (tasks : List TaskNode) (status : Option RunStatus) (now : Instant)
    (options : Options) : (ofRun tasks status now options).map Item.shape = skeleton tasks := by
  rw [ofRun, shape_draw, map_task_overlay]

/-! ## States -/

/-- All items have a state just where states are shown. -/
theorem state?_of_mem_draw {item : Item} (h : item ∈ draw d tasks) :
    ∃ t ∈ tasks, item.state? = if d.withState then some t.state else none := by
  rw [draw, drawOn_eq] at h
  cases item with
  | node n =>
    obtain ⟨t, ht, rfl⟩ := mem_listing_node.1 h
    exact ⟨t, ht, rfl⟩
  | edge e =>
    obtain ⟨t, -, he⟩ := mem_listing_edge.1 h
    obtain ⟨id, dependency, -, -, he⟩ := mem_listedEdges.1 he
    unfold listedEdge? at he
    split at he
    · cases he
    · obtain ⟨source, hsource, rfl⟩ := Option.map_eq_some_iff.1 he
      exact ⟨source, List.mem_of_find?_eq_some hsource, rfl⟩

theorem unlabelled_eq_shape {item : Item} (h : item.state? = none) :
    item.unlabelled = item.shape := by
  cases item with
  | node n =>
    have hstate : n.state = none := h
    rw [Item.unlabelled, Item.shape, hstate]
  | edge e =>
    have hstate : e.state = none := h
    rw [Item.unlabelled, Item.shape, ← hstate]

/-- A pipeline is drawn without states. -/
theorem unlabelled_ofPipeline (tasks : List TaskNode) (options : Options) :
    (ofPipeline tasks options).map Item.unlabelled = skeleton tasks := by
  have hplain : ∀ item ∈ ofPipeline tasks options, item.unlabelled = item.shape := by
    intro item hitem
    obtain ⟨t, -, hstate⟩ := state?_of_mem_draw hitem
    exact unlabelled_eq_shape hstate
  rw [List.map_congr_left hplain, ofPipeline, shape_draw, List.map_map]
  exact congrArg skeleton (List.map_id tasks)

/-! ## Labels -/

def labels (items : List Item) : List String := (items.filterMap Item.node?).map (·.label)

theorem labels_draw (d : Decoration) (tasks : List RunNode) :
    labels (draw d tasks) = tasks.map (label d) := by
  rw [labels, draw, drawOn_eq, filterMap_node?_listing, List.map_map]
  rfl

/-- What is known besides the name comes after it. -/
theorem name_prefix_label (d : Decoration) (t : RunNode) :
    (t.task.name.getD "").toList <+: (label d t).toList := by
  have h : ∀ (parts : List String) (text : String),
      text.toList <+: (parts.foldl (fun text part => s!"{text} {part}") text).toList := by
    intro parts
    induction parts with
    | nil => exact fun text => List.prefix_rfl
    | cons part parts ih =>
      intro text
      refine List.IsPrefix.trans ?_ (ih _)
      exact ⟨(" " ++ part).toList, by simp [toString]⟩
  exact h _ _

/-- Without run data there is nothing to show but the name. -/
theorem label_plain (d : Decoration) (task : TaskNode) :
    label d (.plain task) = task.name.getD "" := by
  simp [label, progress?, elapsed?, RunNode.plain]

theorem labels_draw_plain (d : Decoration) (tasks : List TaskNode) :
    labels (draw d (tasks.map .plain)) = tasks.map fun t => t.name.getD "" := by
  rw [labels_draw, List.map_map]
  exact List.map_congr_left fun task _ => label_plain d task

theorem overlay_none (tasks : List TaskNode) : overlay tasks none = tasks.map .plain := rfl

/-- **Run data never changes the shape of a graph.** Two drawings of the same tasks as a run are the
same but for labels and states, and but for labels and states the drawing as a pipeline. Each label
starts with that of the pipeline, which is the name of the task; and without a status every state is
unknown, and the names are all that there is of the labels. -/
theorem ofRun_shape (tasks : List TaskNode) (status status' : Option RunStatus)
    (now now' : Instant) (options options' : Options) :
    (ofRun tasks status now options).map Item.shape
        = (ofRun tasks status' now' options').map Item.shape ∧
    (ofRun tasks status now options).map Item.shape
        = (ofPipeline tasks options').map Item.unlabelled ∧
    List.Forall₂ (fun name label => name.toList <+: label.toList)
      (labels (ofPipeline tasks options')) (labels (ofRun tasks status now options)) ∧
    labels (ofPipeline tasks options') = tasks.map (fun t => t.name.getD "") ∧
    labels (ofRun tasks none now options) = labels (ofPipeline tasks options') ∧
    ∀ item ∈ ofRun tasks none now options, item.state? = some .unknown := by
  refine ⟨?_, ?_, ?_, ?_, ?_, ?_⟩
  · rw [shape_ofRun, shape_ofRun]
  · rw [shape_ofRun, unlabelled_ofPipeline]
  · have hnames : labels (ofPipeline tasks options')
        = (overlay tasks status).map ((fun t => t.name.getD "") ∘ fun t => t.task) := by
      rw [ofPipeline, labels_draw_plain, ← List.map_map, map_task_overlay]
    rw [hnames, ofRun, labels_draw, List.forall₂_map_left_iff, List.forall₂_map_right_iff,
      List.forall₂_same]
    exact fun t _ => name_prefix_label _ t
  · rw [ofPipeline, labels_draw_plain]
  · rw [ofRun, overlay_none, ofPipeline, labels_draw_plain, labels_draw_plain]
  · intro item hitem
    rw [ofRun, overlay_none] at hitem
    obtain ⟨t, ht, hstate⟩ := state?_of_mem_draw hitem
    obtain ⟨task, -, rfl⟩ := List.mem_map.1 ht
    exact hstate

end PipelineLens.Graph
