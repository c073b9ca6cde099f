import PipelineLens.Proofs.Element.Arena
import PipelineLens.Proofs.Element.Listing
import PipelineLens.Proofs.Spec.Agreement
import PipelineLens.Proofs.Spec.Ids
/-!
# Tasks among the elements

The tasks of a document are found in three ways: as elements, by questions to the parse tree, and by
extraction from the spec. They differ in what they take for a task, since an item of `tasks` that is
no mapping has an element but no node, and in where they read a name. But where names are texts,
what has a name is the same for all of them, in the same order (`Document.tasks_agree`).
-/
namespace PipelineLens

open SpecView

/-! ## The names of a spec -/

/-- What stands under `name` in an item of `tasks` or `finally` is a text. -/
def TextNames {σ : Type} [SpecView σ] (spec : σ) : Prop :=
  ∀ item ∈ fieldItems spec "tasks" ++ fieldItems spec "finally",
    ∀ value ∈ field? item "name", (text? value).isSome = true

instance {σ : Type} [SpecView σ] (spec : σ) : Decidable (TextNames spec) :=
  inferInstanceAs (Decidable (∀ item ∈ fieldItems spec "tasks" ++ fieldItems spec "finally",
    ∀ value ∈ field? item "name", (text? value).isSome = true))

theorem names_unguarded {σ : Type} [SpecView σ] (spec : σ) :
    (unguarded (extract spec)).map (·.name) = entryNames spec := by
  rw [unguarded_extract, entryNames, List.map_append, List.map_append, List.map_map, List.map_map]
  rfl

theorem filter_not_isFinal {σ : Type} [SpecView σ] (spec : σ) :
    (extract spec).filter (fun n => !n.isFinal) = mainNodes spec := by
  have hmain : (mainNodes spec).filter (fun n => !n.isFinal) = mainNodes spec :=
    List.filter_eq_self.2 fun n hn => by rw [isFinal_of_mem_mainNodes hn, Bool.not_false]
  have hfinal : ((entries spec "finally").map (finalTask (sinks (mainNodes spec)))).filter
      (fun n => !n.isFinal) = [] :=
    List.filter_eq_nil_iff.2 fun n hn => by
      obtain ⟨e, -, rfl⟩ := List.mem_map.1 hn
      exact Bool.false_ne_true
  rw [extract, List.filter_append, hmain, hfinal, List.append_nil]

namespace TreeNode

/-- Only a mapping has something under a key. -/
theorem isMapping_of_fieldText? {e : TreeNode} {key name : String}
    (h : fieldText? e key = some name) : SpecView.isMapping e = true := by
  rw [show e = TreeNode.mk e.tree e.id from rfl, fieldText?_mk] at h
  exact Tree.isMapping_of_findText? h

/-- An item that is no mapping has no name. -/
theorem filterMap_entries (spec : TreeNode) (key : String) :
    (entries spec key).filterMap (fieldText? · "name")
      = (fieldItems spec key).filterMap (fieldText? · "name") := by
  rw [entries, List.filterMap_filter]
  refine List.filterMap_congr fun e _ => ?_
  cases hname : fieldText? e "name" with
  | none => exact ite_self _
  | some name => rw [if_pos (isMapping_of_fieldText? hname)]

theorem find?_entries (spec : TreeNode) (name : String) :
    ((entries spec "tasks" ++ entries spec "finally").find?
        fun e => fieldText? e "name" = some name)
      = (fieldItems spec "tasks" ++ fieldItems spec "finally").find?
          fun e => fieldText? e "name" = some name := by
  rw [entries, entries, ← List.filter_append, List.find?_filter]
  congr 1
  funext e
  by_cases hname : fieldText? e "name" = some name
  · simp [hname, isMapping_of_fieldText? hname]
  · simp [hname]

end TreeNode

/-! ## Where tasks stand in an outline -/

namespace ElementKind

/-- Whether an element of this kind can be a task or have one somewhere below it. -/
def leadsToTasks : ElementKind → Bool
  | document | pipeline | pipelineRun | pipelineRunSpec | pipelineSpec | pipelineTasks
  | pipelineFinally | pipelineTask => true
  | _ => false

end ElementKind

/-- Nothing of this shape is a task or has one below it. -/
def Shape.Taskless : Shape → Prop
  | .map kind => kind.leadsToTasks = false
  | .list kind item =>
    kind.leadsToTasks = false ∧ ∀ entry, item = .map entry → entry.leadsToTasks = false
  | _ => True

theorem Shape.closed_taskless : Closed Taskless where
  field kind h := by
    cases kind <;> simp [ElementKind.fields, Shape.Taskless, ElementKind.leadsToTasks] at h ⊢
  item kind item h := by
    cases item with
    | text => trivial
    | map entry => exact h.2 entry rfl
  texts _ := ⟨rfl, nofun⟩

namespace Tree
open Outline

variable {t : Tree} {id : Nat}

theorem partsOf_taskless {shape : Shape} (hs : shape.Taskless) (above : Option ElementKind)
    (id : Nat) : partsOf .pipelineTask above (t.outline shape id) = [] := by
  have hne : ∀ kind : ElementKind, kind.leadsToTasks = false → kind ≠ .pipelineTask := by
    rintro kind h rfl
    cases h
  have hevery : (t.outline shape id).Every fun kind _ _ => kind ≠ .pipelineTask :=
    every_outline Shape.closed_taskless (fun kind _ h => hne kind h)
      (fun kind _ _ h => hne kind h.1) id shape hs
  exact hevery.partsOf_eq_nil nofun above

/-- The tasks in a mapping are those under its fields. -/
theorem partsOf_map (kind : ElementKind) (hkind : kind ≠ .pipelineTask)
    (above : Option ElementKind) (id : Nat) :
    partsOf .pipelineTask above (t.outline (.map kind) id) = kind.fields.flatMap fun f =>
      ((t.findValue? id f.1).map fun value =>
        partsOf .pipelineTask (some kind) (t.outline f.2 value)).getD [] := by
  rw [outline_map, partsOf_branch, if_neg hkind, List.nil_append, contents_fields]
  induction kind.fields with
  | nil => rfl
  | cons f fields ih =>
    rw [List.flatMap_cons, ← ih]
    cases hv : t.findValue? id f.1 with
    | none => rw [List.filterMap_cons_none (by rw [hv]; rfl)]; rfl
    | some value => rw [List.filterMap_cons_some (by rw [hv]; rfl)]; rfl

/-- The tasks of a list of tasks are its items, and nothing below them. -/
theorem partsOf_taskList {kind : ElementKind} (hkind : kind ≠ .pipelineTask)
    (above : Option ElementKind) (id : Nat) :
    partsOf .pipelineTask above (t.outline (.list kind (.map .pipelineTask)) id)
      = (t.items id).map fun i => (some kind, t.outline (.map .pipelineTask) i) := by
  have htask : ∀ i, partsOf .pipelineTask (some kind) (t.outline (.map .pipelineTask) i)
      = [(some kind, t.outline (.map .pipelineTask) i)] := by
    intro i
    rw [outline_map, partsOf_branch, if_pos rfl, contents_fields, List.flatMap_eq_nil_iff.2,
      List.append_nil]
    intro x hx
    obtain ⟨f, hf, hx⟩ := List.mem_filterMap.1 hx
    obtain ⟨value, -, rfl⟩ := Option.map_eq_some_iff.1 hx
    refine partsOf_taskless ?_ _ value
    revert f
    simp [ElementKind.fields, Shape.Taskless, ElementKind.leadsToTasks]
  rw [outline_list, partsOf_branch, if_neg hkind, List.nil_append, contents_items,
    List.flatMap_map, ItemShape.shape]
  simp only [htask]
  exact (List.map_eq_flatMap ..).symm

/-- Under fields that are for no tasks stand none. -/
theorem partsOf_fields_taskless {fields : List (String × Shape)}
    (h : ∀ f ∈ fields, f.2.Taskless) (above : Option ElementKind) (id : Nat) :
    (fields.flatMap fun f => ((t.findValue? id f.1).map fun value =>
      partsOf .pipelineTask above (t.outline f.2 value)).getD []) = [] := by
  refine List.flatMap_eq_nil_iff.2 fun f hf => ?_
  cases t.findValue? id f.1 with
  | none => rfl
  | some value => exact partsOf_taskless (h f hf) above value

/-- The tasks in a mapping of which only one field can have some. -/
theorem partsOf_field (kind : ElementKind) (hkind : kind ≠ .pipelineTask)
    (before after : List (String × Shape)) {key : String} {shape : Shape}
    (hfields : kind.fields = before ++ (key, shape) :: after)
    (htaskless : ∀ f ∈ before ++ after, f.2.Taskless) (above : Option ElementKind) (id : Nat) :
    partsOf .pipelineTask above (t.outline (.map kind) id)
      = ((t.findValue? id key).map fun value =>
          partsOf .pipelineTask (some kind) (t.outline shape value)).getD [] := by
  rw [partsOf_map kind hkind, hfields, List.flatMap_append, List.flatMap_cons,
    partsOf_fields_taskless fun f hf => htaskless f (List.mem_append_left _ hf),
    partsOf_fields_taskless fun f hf => htaskless f (List.mem_append_right _ hf),
    List.nil_append, List.append_nil]

theorem partsOf_pipeline (t : Tree) (above : Option ElementKind) (id : Nat) :
    partsOf .pipelineTask above (t.outline (.map .pipeline) id)
      = ((t.findValue? id "spec").map fun value =>
          partsOf .pipelineTask (some .pipeline) (t.outline (.map .pipelineSpec) value)).getD [] :=
  partsOf_field .pipeline nofun [_, _, _] [] rfl
    (by simp [Shape.Taskless, ElementKind.leadsToTasks]) above id

theorem partsOf_pipelineRun (t : Tree) (above : Option ElementKind) (id : Nat) :
    partsOf .pipelineTask above (t.outline (.map .pipelineRun) id)
      = ((t.findValue? id "spec").map fun value =>
          partsOf .pipelineTask (some .pipelineRun)
            (t.outline (.map .pipelineRunSpec) value)).getD [] :=
  partsOf_field .pipelineRun nofun [_, _, _] [] rfl
    (by simp [Shape.Taskless, ElementKind.leadsToTasks]) above id

theorem partsOf_pipelineRunSpec (t : Tree) (above : Option ElementKind) (id : Nat) :
    partsOf .pipelineTask above (t.outline (.map .pipelineRunSpec) id)
      = ((t.findValue? id "pipelineSpec").map fun value =>
          partsOf .pipelineTask (some .pipelineRunSpec)
            (t.outline (.map .pipelineSpec) value)).getD [] :=
  partsOf_field .pipelineRunSpec nofun [_] [_, _, _] rfl
    (by simp [Shape.Taskless, ElementKind.leadsToTasks]) above id

end Tree

namespace TreeNode
open Outline

/-- The items of both lists of tasks, each with the kind of its list. -/
def taskItems (spec : TreeNode) : List (ElementKind × TreeNode) :=
  (fieldItems spec "tasks").map (.pipelineTasks, ·)
    ++ (fieldItems spec "finally").map (.pipelineFinally, ·)

theorem map_taskItems (spec : TreeNode) :
    spec.taskItems.map (·.2) = fieldItems spec "tasks" ++ fieldItems spec "finally" := by
  rw [taskItems, List.map_append, List.map_map, List.map_map]
  exact congr (congrArg _ (List.map_id _)) (List.map_id _)

theorem mainItems (spec : TreeNode) :
    (spec.taskItems.filter fun item => item.1 = .pipelineTasks)
      = (fieldItems spec "tasks").map (.pipelineTasks, ·) := by
  simp [taskItems, List.filter_append, List.filter_map, Function.comp_def]

/-- The element of an item. -/
def taskPart (item : ElementKind × TreeNode) : Option ElementKind × Outline :=
  (some item.1, item.2.tree.outline (.map .pipelineTask) item.2.id)

/-- The tasks of a list in a spec are its items. -/
theorem partsOf_listField (spec : TreeNode) (key : String) (kind : ElementKind)
    (hkind : kind ≠ .pipelineTask) :
    ((spec.tree.findValue? spec.id key).map fun value =>
        partsOf .pipelineTask (some .pipelineSpec)
          (spec.tree.outline (.list kind (.map .pipelineTask)) value)).getD []
      = (fieldItems spec key).map fun e => taskPart (kind, e) := by
  unfold fieldItems
  change _ = ((((spec.tree.findValue? spec.id key).map (TreeNode.mk spec.tree)).map
    SpecView.items).getD []).map _
  cases spec.tree.findValue? spec.id key with
  | none => rfl
  | some value =>
    rw [Option.map_some, Option.map_some, Option.map_some, Option.getD_some, Option.getD_some,
      Tree.partsOf_taskList hkind]
    change _ = ((spec.tree.items value).map (TreeNode.mk spec.tree)).map _
    rw [List.map_map]
    rfl

/-- The tasks of a spec are the items of its lists, those of `tasks` first. -/
theorem partsOf_spec (spec : TreeNode) (above : Option ElementKind) :
    partsOf .pipelineTask above (spec.tree.outline (.map .pipelineSpec) spec.id)
      = spec.taskItems.map taskPart := by
  rw [Tree.partsOf_map .pipelineSpec (by decide), ElementKind.fields, List.flatMap_cons,
    List.flatMap_cons, partsOf_listField spec "tasks" .pipelineTasks (by decide),
    partsOf_listField spec "finally" .pipelineFinally (by decide),
    Tree.partsOf_fields_taskless (by simp [Shape.Taskless, ElementKind.leadsToTasks]),
    List.append_nil, taskItems, List.map_append, List.map_map, List.map_map]
  rfl

end TreeNode

namespace Document
open Outline

variable {d : Document} {t : Tree}

/-- The items of the lists of tasks of a document, each with the kind of its list. -/
def taskItems (d : Document) (t : Tree) : List (ElementKind × TreeNode) :=
  ((d.taskSpec? t).map (·.taskItems)).getD []

/-- The tasks of a document are the items of the lists in its spec. -/
theorem partsOf_outline {kind : ResourceKind} {body : ElementKind} {node : Nat}
    (hbody : bodyKind? kind = some body) (hkind : d.kind? t = some kind)
    (hnode : d.root? t = some node) :
    partsOf .pipelineTask none (d.outline t (.map body) node)
      = (d.taskItems t).map TreeNode.taskPart := by
  have hdocument : partsOf .pipelineTask none (d.outline t (.map body) node)
      = partsOf .pipelineTask (some .document) (t.outline (.map body) node) := by
    rw [outline, partsOf_branch, if_neg (by decide), List.nil_append]
    exact List.append_nil _
  have hspec : ∀ above id, partsOf .pipelineTask above (t.outline (.map .pipelineSpec) id)
      = (TreeNode.mk t id).taskItems.map TreeNode.taskPart :=
    fun above id => TreeNode.partsOf_spec ⟨t, id⟩ above
  rw [hdocument, taskItems]
  cases kind with
  | pipeline =>
    obtain rfl : body = .pipeline := (Option.some.inj hbody).symm
    rw [taskSpec?_of_pipeline hnode hkind, Tree.partsOf_pipeline]
    change _ = ((((t.findValue? node "spec").map (TreeNode.mk t)).map _).getD []).map _
    cases t.findValue? node "spec" with
    | none => rfl
    | some spec => exact hspec _ spec
  | pipelineRun =>
    obtain rfl : body = .pipelineRun := (Option.some.inj hbody).symm
    rw [taskSpec?_of_pipelineRun hnode hkind, Tree.partsOf_pipelineRun]
    change _ = (((((t.findValue? node "spec").map (TreeNode.mk t)).bind _).map _).getD []).map _
    cases t.findValue? node "spec" with
    | none => rfl
    | some spec =>
      change partsOf _ _ _ = ((((t.findValue? spec "pipelineSpec").map (TreeNode.mk t)).map
        _).getD []).map _
      rw [Tree.partsOf_pipelineRunSpec]
      cases t.findValue? spec "pipelineSpec" with
      | none => rfl
      | some spec => exact hspec _ spec
  | _ => cases hbody

/-! ## The names of a document -/

/-- What stands under `name` in the items of the lists of tasks are texts. -/
def TextNames (d : Document) (t : Tree) : Prop :=
  ∀ spec ∈ d.taskSpec? t, PipelineLens.TextNames spec

instance (d : Document) (t : Tree) : Decidable (d.TextNames t) :=
  inferInstanceAs (Decidable (∀ spec ∈ d.taskSpec? t, PipelineLens.TextNames spec))

/-- Where the name of the first task stands that is called `name`, those of the main list first. -/
def nameRange? (d : Document) (t : Tree) (name : String) : Option Range := do
  let spec ← d.taskSpec? t
  let entry ← (entries spec "tasks" ++ entries spec "finally").find? fun e =>
    fieldText? e "name" = some name
  let value ← field? entry "name"
  some (value.tree.rangeOf value.id)

theorem names_taskItems (d : Document) (t : Tree) :
    (d.taskItems t).filterMap (fun item => fieldText? item.2 "name")
      = (unguarded (d.tasks t)).filterMap (·.name) := by
  rw [taskItems, tasks_eq]
  cases d.taskSpec? t with
  | none => rfl
  | some spec =>
    calc spec.taskItems.filterMap (fun item => fieldText? item.2 "name")
      _ = (fieldItems spec "tasks" ++ fieldItems spec "finally").filterMap
            (fieldText? · "name") := by
        rw [← spec.map_taskItems, List.filterMap_map]
        rfl
      _ = (entries spec "tasks" ++ entries spec "finally").filterMap (fieldText? · "name") := by
        rw [List.filterMap_append, List.filterMap_append, TreeNode.filterMap_entries,
          TreeNode.filterMap_entries]
      _ = (entryNames spec).filterMap fun name => name := by
        rw [entryNames, List.filterMap_map]
        rfl
      _ = (unguarded (extract spec)).filterMap (·.name) := by
        rw [← names_unguarded, List.filterMap_map]
        rfl

theorem pipelineItems_eq (d : Document) (t : Tree) (key : String) :
    d.pipelineItems t key
      = (((d.pipelineSpec? t).bind (t.findValue? · key)).map t.items).getD [] := by
  unfold pipelineItems
  cases (d.pipelineSpec? t).bind (t.findValue? · key) <;> rfl

/-- A list in the spec of a pipeline has the same items for both kinds of question. -/
theorem fieldItems_taskSpec? (hkind : d.kind? t = some .pipeline) (key : String) :
    ((d.taskSpec? t).map (fieldItems · key)).getD [] = (d.pipelineItems t key).map (.mk t) := by
  obtain ⟨root, hroot⟩ := exists_root_of_kind? hkind
  rw [taskSpec?_of_pipeline hroot hkind, pipelineItems_eq, pipelineSpec?, if_pos hkind, spec?,
    hroot]
  change (((t.findValue? root "spec").map (TreeNode.mk t)).map _).getD []
    = ((((t.findValue? root "spec").bind (t.findValue? · key)).map t.items).getD []).map _
  cases t.findValue? root "spec" with
  | none => rfl
  | some spec =>
    change (((t.findValue? spec key).map (TreeNode.mk t)).map SpecView.items).getD [] = _
    rw [Option.bind_some]
    cases t.findValue? spec key <;> rfl

/-- The names of the main list of a pipeline. -/
theorem names_mainItems (hkind : d.kind? t = some .pipeline) :
    ((d.taskItems t).filter fun item => item.1 = .pipelineTasks).filterMap
        (fun item => fieldText? item.2 "name") = d.taskNames t ∧
    (unguarded ((d.tasks t).filter fun n => !n.isFinal)).filterMap (·.name) = d.taskNames t := by
  have hitems := fieldItems_taskSpec? hkind "tasks"
  have hnames : d.taskNames t = (((d.taskSpec? t).map (fieldItems · "tasks")).getD []).filterMap
      (fieldText? · "name") := by
    rw [hitems, List.filterMap_map, taskNames]
    exact List.filterMap_congr fun item _ => (fieldText?_mk t item "name").symm
  rw [hnames, taskItems, tasks_eq]
  cases d.taskSpec? t with
  | none => exact ⟨rfl, rfl⟩
  | some spec =>
    constructor
    · change (spec.taskItems.filter _).filterMap _ = _
      rw [spec.mainItems, List.filterMap_map]
      rfl
    · change (unguarded ((extract spec).filter _)).filterMap _
        = (fieldItems spec "tasks").filterMap _
      rw [filter_not_isFinal, unguarded_mainNodes, ← TreeNode.filterMap_entries, List.filterMap_map]
      rfl

theorem nameRange?_eq (d : Document) (t : Tree) (name : String) :
    d.nameRange? t name = ((d.taskItems t).find? fun item =>
      fieldText? item.2 "name" = some name).bind fun item =>
        (field? item.2 "name").map fun value => value.tree.rangeOf value.id := by
  rw [nameRange?, taskItems]
  cases d.taskSpec? t with
  | none => rfl
  | some spec =>
    change ((entries spec "tasks" ++ entries spec "finally").find? _).bind _ = _
    rw [TreeNode.find?_entries, ← spec.map_taskItems, List.find?_map, Option.bind_map,
      Option.map_some, Option.getD_some]
    congr 1
    funext item
    change (field? item.2 "name").bind _ = _
    cases field? item.2 "name" <;> rfl

end Document

/-! ## The elements of tasks -/

namespace Tree
open Outline

theorem field?_task (t : Tree) (id : Nat) :
    (t.outline (.map .pipelineTask) id).field? "name"
      = (t.findValue? id "name").map (t.outline .text) := by
  rw [outline_map, Outline.field?, Outline.slots, ElementKind.fields]
  cases h : t.findValue? id "name" <;> simp [h]

theorem decoded?_eq {t : Tree} {id : Nat} (h : (t.scalarText? id).isSome = true) :
    t.decoded? id = t.scalarText? id := by
  unfold scalarText? at h ⊢
  unfold decoded?
  cases hn : t.node? id with
  | none => rfl
  | some n =>
    rw [hn, Option.bind_some] at h
    rw [Option.map_some, Option.bind_some]
    cases hb : n.body <;> simp [hb] at h ⊢

end Tree

/-- The definition that a range is. -/
def Range.definition (r : Range) : Definition := .here r.start r.stop

namespace Sheet
open Outline

/-- The element is the task of an item: it is in the list of the item, has its name, and is defined
where this name stands. -/
structure IsTask (s : Sheet) (id : Nat) (item : ElementKind × TreeNode) : Prop where
  list : (s.parent? id).bind s.kindOf? = some item.1
  name : s.fieldText? id "name" = SpecView.fieldText? item.2 "name"
  definition : (s.field? id "name").bind s.definedBy?
    = (SpecView.field? item.2 "name").map fun value => (value.tree.rangeOf value.id).definition

section
variable {kind : ResourceKind} {o : Outline} {above : Option Nat} {id : Nat}

theorem value_of_stands (kind : ResourceKind) {t : Tree} {v : Nat}
    (h : Stands (o.place none 0) above id (t.outline .text v)) :
    (ofOutline kind o).text? id = t.decoded? v ∧
      (ofOutline kind o).definedBy? id = some (t.rangeOf v).definition := by
  unfold Stands at h
  rw [Tree.outline, Tree.textLeaf, Outline.place] at h
  have he := SegmentAt.head h
  rw [← element?_ofOutline kind] at he
  rw [text?, definedBy?, he]
  refine ⟨?_, rfl⟩
  cases t.decoded? v <;> rfl

/-- The name of a task and that of its item, if there is one, stand for each other. -/
theorem name_of_stands (kind : ResourceKind) {e : TreeNode}
    (h : Stands (o.place none 0) above id (e.tree.outline (.map .pipelineTask) e.id)) :
    ((ofOutline kind o).field? id "name" = none ∧ SpecView.field? e "name" = none) ∨
    ∃ c v, (ofOutline kind o).field? id "name" = some c ∧
      SpecView.field? e "name" = some ⟨e.tree, v⟩ ∧
      Stands (o.place none 0) (some id) c (e.tree.outline .text v) := by
  have hfield := field?_of_stands kind h "name"
  change _ ∧ (e.tree.findValue? e.id "name").map (TreeNode.mk e.tree) = none ∨ ∃ c v, _ ∧
    (e.tree.findValue? e.id "name").map (TreeNode.mk e.tree) = _ ∧ _
  rw [Tree.field?_task] at hfield
  cases hv : e.tree.findValue? e.id "name" with
  | none =>
    rw [hv] at hfield
    cases hc : (ofOutline kind o).field? id "name" with
    | none => exact .inl ⟨rfl, rfl⟩
    | some c =>
      rw [hc] at hfield
      cases hfield
  | some v =>
    rw [hv] at hfield
    cases hc : (ofOutline kind o).field? id "name" with
    | none =>
      rw [hc] at hfield
      cases hfield
    | some c =>
      rw [hc] at hfield
      cases hfield with
      | some hstands => exact .inr ⟨c, v, rfl, rfl, hstands⟩

theorem isTask_of_listedAt {item : ElementKind × TreeNode}
    (h : ListedAt (o.place none 0) id (TreeNode.taskPart item))
    (htext : ∀ value, SpecView.field? item.2 "name" = some value →
      (SpecView.text? value).isSome = true) : (ofOutline kind o).IsTask id item := by
  obtain ⟨parent, hstands, hlist⟩ := h
  have hparent : ((ofOutline kind o).parent? id).bind (ofOutline kind o).kindOf? = some item.1 := by
    rw [parent?_of_stands hstands]
    refine Eq.trans (congrArg parent.bind (funext fun p => ?_)) hlist
    rw [kindOf?, element?_ofOutline]
  obtain ⟨hc, hfield⟩ | ⟨c, v, hc, hfield, hvalue⟩ := name_of_stands kind hstands
  · refine ⟨hparent, ?_, ?_⟩
    · rw [fieldText?, hc, SpecView.fieldText?, hfield]
      rfl
    · rw [hc, hfield]
      rfl
  · obtain ⟨htext', hdefined⟩ := value_of_stands kind hvalue
    refine ⟨hparent, ?_, ?_⟩
    · rw [fieldText?, hc, SpecView.fieldText?, hfield, Option.bind_some, Option.bind_some, htext']
      exact Tree.decoded?_eq (htext _ hfield)
    · rw [hc, hfield, Option.bind_some, hdefined]
      rfl

end

end Sheet

namespace Document

variable {d : Document} {t : Tree} {s : Sheet}

/-- The tasks of a sheet are the items of the lists of tasks, in the same order. -/
theorem forall₂_tasks (hs : d.sheet? t = some s) (hnames : d.TextNames t) :
    List.Forall₂ s.IsTask (s.ofKind .pipelineTask) (d.taskItems t) := by
  obtain ⟨kind, body, node, hbody, hkind, hnode, rfl⟩ := exists_outline_of_sheet? hs
  have hall := Sheet.forall₂_ofKind kind (d.outline t (.map body) node) .pipelineTask
  rw [partsOf_outline hbody hkind hnode, List.forall₂_map_right_iff] at hall
  refine (forall₂_and_mem hall).imp ?_
  rintro id item ⟨hlisted, hitem⟩
  refine Sheet.isTask_of_listedAt hlisted fun value hvalue => ?_
  unfold taskItems at hitem
  cases hspec : d.taskSpec? t with
  | none =>
    rw [hspec] at hitem
    cases hitem
  | some spec =>
    rw [hspec] at hitem
    have hmem : item.2 ∈ spec.taskItems.map (·.2) := List.mem_map_of_mem hitem
    rw [spec.map_taskItems] at hmem
    exact hnames spec hspec item.2 hmem value hvalue

/-- A name in `runAfter` or `from` leads to the first task with this name. -/
theorem definition?_eq {id p : Nat} {v : String} (harena : s.Arena t)
    (hk : s.kindOf? id = some .value) (hp : s.parent? id = some p)
    (hlist : s.kindOf? p = some .pipelineTaskRunAfter ∨
      s.kindOf? p = some .pipelineTaskInputResourceFrom) (hv : s.text? id = some v) :
    s.definition? id
      = (s.findTask? v).bind fun task => (s.field? task "name").bind s.definedBy? := by
  obtain ⟨e, he⟩ := Sheet.element?_of_parent? hp
  have hid := Sheet.lt_size_of_element? he
  have hne : id ≠ Sheet.root := fun hroot => by
    rw [(harena.orphan id hid).2 hroot] at hp
    cases hp
  obtain ⟨-, -, slot, -, -, -, hslot, -⟩ := harena.slot id hid hne
  unfold Sheet.definition?
  rcases hlist with hlist | hlist <;> simp [hk, hp, hslot, hv, Sheet.target?, hlist]

theorem findTask?_rel (hs : d.sheet? t = some s) (hnames : d.TextNames t) (v : String) :
    Option.Rel s.IsTask (s.findTask? v)
      ((d.taskItems t).find? fun item => fieldText? item.2 "name" = some v) := by
  refine find?_rel_of_forall₂ (forall₂_tasks hs hnames) fun id item h => ?_
  rw [h.name]

/-- The first task with a name is defined where this name stands. -/
theorem definedBy?_findTask? (hs : d.sheet? t = some s) (hnames : d.TextNames t) (v : String) :
    ((s.findTask? v).bind fun task => (s.field? task "name").bind s.definedBy?)
      = (d.nameRange? t v).map Range.definition ∧
    (d.nameRange? t v).isSome = (s.findTask? v).isSome := by
  have hrel := findTask?_rel hs hnames v
  rw [nameRange?_eq]
  cases hitem : (d.taskItems t).find? fun item => fieldText? item.2 "name" = some v with
  | none =>
    rw [hitem] at hrel
    cases htask : s.findTask? v with
    | none => exact ⟨rfl, rfl⟩
    | some task =>
      rw [htask] at hrel
      cases hrel
  | some item =>
    rw [hitem] at hrel
    cases htask : s.findTask? v with
    | none =>
      rw [htask] at hrel
      cases hrel
    | some task =>
      rw [htask] at hrel
      cases hrel with
      | some htask =>
        have hname : fieldText? item.2 "name" = some v := by simpa using List.find?_some hitem
        obtain ⟨value, hvalue, -⟩ := Option.bind_eq_some_iff.1 hname
        rw [Option.bind_some, Option.bind_some, htask.definition, hvalue]
        exact ⟨rfl, rfl⟩

/-- **Three ways to the tasks of a document.** Where names are texts, the names of the elements that
are tasks are those of the extracted tasks that are no guards, and in the main list of a pipeline
those that the tree is asked for. So an element is found by a name just where a task is called so,
and a name in `runAfter` or `from` leads to the name of the first such task, which is one of the
main list if there is any, wherever the lists stand in the text. -/
theorem tasks_agree (hs : d.sheet? t = some s) (hnames : d.TextNames t) :
    (s.ofKind .pipelineTask).filterMap (s.fieldText? · "name")
      = (unguarded (d.tasks t)).filterMap (·.name) ∧
    (d.kind? t = some .pipeline →
      ((s.ofKind .pipelineTask).filter fun id =>
        (s.parent? id).bind s.kindOf? = some .pipelineTasks).filterMap (s.fieldText? · "name")
          = d.taskNames t ∧
      (unguarded ((d.tasks t).filter fun n => !n.isFinal)).filterMap (·.name) = d.taskNames t) ∧
    ∀ v : String,
      ((s.findTask? v).isSome = true ↔ ∃ n ∈ unguarded (d.tasks t), n.name = some v) ∧
      ∀ id p, s.kindOf? id = some .value → s.parent? id = some p →
        (s.kindOf? p = some .pipelineTaskRunAfter ∨
          s.kindOf? p = some .pipelineTaskInputResourceFrom) →
        s.text? id = some v →
        ((s.definition? id).isSome = true ↔ ∃ n ∈ unguarded (d.tasks t), n.name = some v) ∧
        s.definition? id = (d.nameRange? t v).map Range.definition := by
  have hall := forall₂_tasks hs hnames
  have hsame : (s.ofKind .pipelineTask).filterMap (s.fieldText? · "name")
      = (unguarded (d.tasks t)).filterMap (·.name) := by
    rw [← names_taskItems]
    exact filterMap_eq_of_forall₂ hall fun id item h => h.name
  have hfound : ∀ v : String,
      (s.findTask? v).isSome = true ↔ ∃ n ∈ unguarded (d.tasks t), n.name = some v := by
    intro v
    have hmem : (∃ id ∈ s.ofKind .pipelineTask, s.fieldText? id "name" = some v)
        ↔ ∃ n ∈ unguarded (d.tasks t), n.name = some v := by
      rw [← List.mem_filterMap, ← List.mem_filterMap, hsame]
    rw [← hmem, Sheet.findTask?, List.find?_isSome]
    simp
  refine ⟨hsame, fun hkind => ⟨?_, (names_mainItems hkind).2⟩, fun v => ⟨hfound v, ?_⟩⟩
  · rw [← (names_mainItems hkind).1]
    refine filterMap_eq_of_forall₂ (List.rel_filter ?_ hall) fun id item h => h.name
    intro id item h
    simp [h.list]
  · intro id p hk hp hlist hv
    obtain ⟨hdefined, hsome⟩ := definedBy?_findTask? hs hnames v
    rw [definition?_eq (sheet?_arena hs) hk hp hlist hv, hdefined, Option.isSome_map, hsome]
    exact ⟨hfound v, rfl⟩

/-- A pipeline with an item of `tasks` that is no mapping, and two tasks of one name, of which the
one in `finally` stands first in the text. -/
def twoListsPipeline : Layout :=
  .mapping "" 0 130 [
    nestedField 0 14 "kind" (.scalar "Pipeline" 6 14),
    nestedField 15 40 "apiVersion" (.scalar "tekton.dev/v1" 27 40),
    nestedField 41 130 "spec" (.mapping "" 49 130 [
      nestedField 49 69 "finally" (.sequence "" 60 69 [
        .mapping "" 62 69 [nestedField 62 69 "name" (.scalar "a" 68 69)]]),
      nestedField 72 130 "tasks" (.sequence "" 81 130 [
        .scalar "stray" 83 88,
        .mapping "" 93 100 [nestedField 93 100 "name" (.scalar "a" 99 100)],
        .mapping "" 105 130 [
          nestedField 105 112 "name" (.scalar "b" 111 112),
          nestedField 117 130 "runAfter" (.sequence "" 127 130 [.scalar "a" 128 129])]])])]

def twoListsDocument : Document := ⟨Layout.rootsAt 0 [twoListsPipeline], [], 0, 131⟩

theorem tasks_agree_twoListsDocument :
    ∃ s, twoListsDocument.sheet? (.ofLayouts [twoListsPipeline]) = some s ∧
      twoListsDocument.TextNames (.ofLayouts [twoListsPipeline]) ∧
      (s.ofKind .pipelineTask).filterMap (s.fieldText? · "name") = ["a", "b", "a"] ∧
      s.findTask? "c" = none ∧ s.definition? 12 = some (.here 99 100) := by
  have hnames : twoListsDocument.TextNames (.ofLayouts [twoListsPipeline]) := by decide +kernel
  have htasks : (unguarded (twoListsDocument.tasks (.ofLayouts [twoListsPipeline]))).filterMap
      (·.name) = ["a", "b", "a"] := by
    decide +kernel
  have hnone : ¬ ∃ n ∈ unguarded (twoListsDocument.tasks (.ofLayouts [twoListsPipeline])),
      n.name = some "c" := by
    decide +kernel
  have hrange : (twoListsDocument.nameRange? (.ofLayouts [twoListsPipeline]) "a")
      = some ⟨99, 100⟩ := by
    decide +kernel
  obtain ⟨s, hs⟩ : ∃ s, twoListsDocument.sheet? (.ofLayouts [twoListsPipeline]) = some s :=
    ⟨_, rfl⟩
  have hleaf : (twoListsDocument.sheet? (.ofLayouts [twoListsPipeline])).map (fun s =>
      (s.kindOf? 12, s.parent? 12, s.kindOf? 11, s.text? 12))
        = some (some .value, some 11, some .pipelineTaskRunAfter, some "a") := by
    decide +kernel
  rw [hs, Option.map_some, Option.some.injEq, Prod.mk.injEq, Prod.mk.injEq, Prod.mk.injEq] at hleaf
  obtain ⟨hk, hp, hlist, hv⟩ := hleaf
  obtain ⟨hsame, -, hfound⟩ := tasks_agree hs hnames
  refine ⟨s, hs, hnames, ?_, ?_, ?_⟩
  · rw [hsame, htasks]
  · exact Option.not_isSome_iff_eq_none.1 (mt (hfound "c").1.1 hnone)
  · rw [((hfound "a").2 12 11 hk hp (.inl hlist) hv).2, hrange]
    rfl

end Document

end PipelineLens
