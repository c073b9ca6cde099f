import PipelineLens.Element.Outline
import PipelineLens.Resource
/-!
# The elements of a document

A `Sheet` holds the elements of one document in one array, the document itself first. Above every
element but the first stands one with a smaller index, and below it only larger ones, so walks end
in both directions. `find?` goes down to the element at an offset. `definition?` says where a
reference leads.
-/
namespace PipelineLens

structure Sheet where
  kind : ResourceKind
  elements : Array Element
  ordered : Outline.Ordered 0 elements.size elements.toList

namespace Sheet

/-- The elements of an outline. -/
def ofOutline (kind : ResourceKind) (o : Outline) : Sheet where
  kind := kind
  elements := (o.place none 0).toArray
  ordered := Outline.ordered_place (by simp) o (by simp [Outline.length_place])

def size (s : Sheet) : Nat := s.elements.size

def element? (s : Sheet) (id : Nat) : Option Element := s.elements[id]?

/-- The index of the document. -/
def root : Nat := 0

theorem of_mem_children {s : Sheet} {id c : Nat} {e : Element} (he : s.element? id = some e)
    (hc : c ∈ e.children) : id < c ∧ c < s.size := by
  obtain ⟨h, rfl⟩ := Array.getElem?_eq_some_iff.1 he
  simpa [size] using (s.ordered id (by simpa using h)).1 c (by simpa using hc)

theorem parent_lt {s : Sheet} {id p : Nat} {e : Element} (he : s.element? id = some e)
    (hp : e.parent = some p) : p < id := by
  obtain ⟨h, rfl⟩ := Array.getElem?_eq_some_iff.1 he
  simpa using (s.ordered id (by simpa using h)).2 p (by simpa using hp)

def kindOf? (s : Sheet) (id : Nat) : Option ElementKind := (s.element? id).map (·.kind)

def parent? (s : Sheet) (id : Nat) : Option Nat := (s.element? id).bind (·.parent)

/-- The element in a field. -/
def field? (s : Sheet) (id : Nat) (name : String) : Option Nat :=
  (s.element? id).bind (·.field? name)

/-- The element at the end of a chain of fields. -/
def path? (s : Sheet) (id : Nat) (names : List String) : Option Nat := names.foldlM s.field? id

def text? (s : Sheet) (id : Nat) : Option String := (s.element? id).bind (·.text?)

/-- The text in a field. -/
def fieldText? (s : Sheet) (id : Nat) (name : String) : Option String :=
  (s.field? id name).bind s.text?

/-- The pipeline or pipeline run in the document. -/
def body? (s : Sheet) : Option Nat := s.field? root "body"

/-- The first slot in which an element stands in the one above it. -/
def slot? (s : Sheet) (id : Nat) : Option Slot := do
  let above ← s.element? (← s.parent? id)
  (above.slots.find? fun slot => slot.2 = some id).map (·.1)

/-- An element and all above it, from the inside out. -/
def ancestors (s : Sheet) (id : Nat) : List Nat :=
  match _he : s.element? id with
  | none => [id]
  | some e =>
    match _hp : e.parent with
    | none => [id]
    | some p => id :: s.ancestors p
termination_by id
decreasing_by exact parent_lt _he _hp

/-! ## Positions -/

def contains (s : Sheet) (id pos : Nat) : Bool := (s.element? id).any (·.contains pos)

/-- The innermost element at an offset, from an element downwards. Of overlapping elements the first
one counts. -/
def findFrom? (s : Sheet) (id pos : Nat) : Option Nat :=
  match _he : s.element? id with
  | none => none
  | some e =>
    if !e.contains pos then none
    else if e.kind.isLeaf then some id
    else
      match _hc : e.children.find? fun c => s.contains c pos with
      | none => some id
      | some c =>
        if s.kindOf? c = some .value then some c else some ((s.findFrom? c pos).getD c)
termination_by s.size - id
decreasing_by
  have := of_mem_children _he (List.mem_of_find?_eq_some _hc)
  omega

/-- The innermost element at an offset. -/
def find? (s : Sheet) (pos : Nat) : Option Nat := s.findFrom? root pos

/-! ## Tasks and references -/

/-- The indices of the elements of a kind. -/
def ofKind (s : Sheet) (kind : ElementKind) : List Nat :=
  (List.range s.size).filter fun id => s.kindOf? id = some kind

/-- The first task with this name. -/
def findTask? (s : Sheet) (name : String) : Option Nat :=
  (s.ofKind .pipelineTask).find? fun id => s.fieldText? id "name" = some name

/-- The first declared resource with this name. -/
def findResource? (s : Sheet) (name : String) : Option Nat :=
  (s.ofKind .pipelineResource).find? fun id => s.fieldText? id "name" = some name

/-- The task that an element is, or belongs to. -/
def enclosingTask? (s : Sheet) (id : Nat) : Option Nat :=
  (s.ancestors id).find? fun a => s.kindOf? a = some .pipelineTask

/-- The kind of task that a reference names; a plain task if it does not say. -/
def taskRefKind (s : Sheet) (reference : Nat) : TaskRefKind :=
  match ((s.field? reference "kind").bind s.element?).bind (·.value) with
  | some (.taskKind kind) => kind
  | _ => .task

/-- From the key of the reference of a task to the end of its value. -/
def taskRefRange? (s : Sheet) (task : Nat) : Option (Nat × Nat) := do
  let reference ← s.element? (← s.field? task "taskRef")
  some (reference.place.keyStart.getD reference.place.start, reference.place.stop)

/-- What the task or the condition that an element is goes by. -/
def taskName? (s : Sheet) (id : Nat) : Option String :=
  match s.kindOf? id with
  | some .pipelineTaskCondition => s.fieldText? id "conditionRef"
  | some .pipelineTask => s.fieldText? id "name"
  | _ => none

/-- The name of the condition or task around an offset. -/
def taskNameAt? (s : Sheet) (pos : Nat) : Option String := do
  (s.ancestors (← s.find? pos)).findSome? s.taskName?

end Sheet

/-- The resources of a cluster that a document refers to. -/
inductive ClusterResource where
  | task
  | clusterTask
  | condition
deriving DecidableEq, Repr

/-- Where a reference leads. -/
inductive Definition where
  /-- a range of the same document -/
  | here (start stop : Nat)
  | cluster (resource : ClusterResource) (name : String)
deriving DecidableEq, Repr

namespace Sheet

/-- The range of an element that is defined here. -/
def definedBy? (s : Sheet) (id : Nat) : Option Definition :=
  (s.element? id).map fun e => .here e.place.start e.place.stop

/-- Where a text leads that stands in the given slot of an element. -/
def target? (s : Sheet) (above : Nat) (slot : Slot) (text : String) : Option Definition := do
  match ← s.kindOf? above, slot with
  | .pipelineTaskRunAfter, _ => s.definedBy? (← s.field? (← s.findTask? text) "name")
  | .pipelineTaskInputResourceFrom, _ => s.definedBy? (← s.field? (← s.findTask? text) "name")
  | .pipelineTaskInputResource, .field "resource" =>
    s.definedBy? (← s.field? (← s.findResource? text) "name")
  | .pipelineTaskOutputsResource, .field "resource" =>
    s.definedBy? (← s.field? (← s.findResource? text) "name")
  | .pipelineTaskRef, .field "name" =>
    some (.cluster (if s.taskRefKind above = .clusterTask then .clusterTask else .task) text)
  | .pipelineTaskCondition, .field "conditionRef" => some (.cluster .condition text)
  | _, _ => none

/-- Where a value leads, if it is a reference. -/
def definition? (s : Sheet) (id : Nat) : Option Definition := do
  if s.kindOf? id ≠ some .value then none
  else s.target? (← s.parent? id) (← s.slot? id) (← s.text? id)

end Sheet

end PipelineLens
