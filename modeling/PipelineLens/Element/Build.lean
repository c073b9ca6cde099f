import PipelineLens.Element.Sheet
import PipelineLens.Number.Whole
import PipelineLens.Text.Blank
import PipelineLens.Text.Lines
/-!
# From the parse tree to elements

A pipeline or a pipeline run is read field by field: under every key of a table stands an element of
the shape that the table says, whatever the node there is. A node of the wrong kind gives an element
without slots, or with empty ones.
-/
namespace PipelineLens

namespace Tree

/-- Where a node stands. -/
def placeOf (t : Tree) (id : Nat) : Place :=
  match t.node? id with
  | some n => ⟨n.start, n.stop, some id, t.keyStart? id⟩
  | none => ⟨0, 0, some id, none⟩

/-- The value that a node has as a text. -/
def textLeaf (t : Tree) (id : Nat) : Outline :=
  .leaf (t.placeOf id) ((t.decoded? id).map .text)

/-- The elements of a node of the given shape. -/
def outline (t : Tree) (shape : Shape) (id : Nat) : Outline :=
  match shape with
  | .text => t.textLeaf id
  | .flag => .leaf (t.placeOf id) ((t.node? id).map fun n => .flag (n.raw = "true"))
  | .number =>
    .leaf (t.placeOf id)
      (((t.node? id).bind fun n => whole? (Text.trim n.raw.toList)).map .number)
  | .taskKind => .leaf (t.placeOf id) ((t.decoded? id).map fun name => .taskKind (.ofName name))
  | .map kind =>
    .branch kind (t.placeOf id) (kind.fields.map fun f =>
      (.field f.1,
        match _h : t.findValue? id f.1 with
        | some value => some (t.outline f.2 value)
        | none => none))
  | .list kind .text =>
    .branch kind (t.placeOf id)
      ((t.items id).zipIdx.map fun i => (.item i.2, some (t.textLeaf i.1)))
  | .list kind (.map entry) =>
    .branch kind (t.placeOf id) ((t.items id).attach.zipIdx.map fun i =>
      (.item i.2, some (t.outline (.map entry) i.1.1)))
  | .textOrList =>
    if (t.node? id).any (·.isSequence) then
      .branch .stringArray (t.placeOf id)
        ((t.items id).zipIdx.map fun i => (.item i.2, some (t.textLeaf i.1)))
    else t.textLeaf id
termination_by id
decreasing_by
  · exact lt_of_findValue? _h
  · exact lt_of_mem_items i.1.2

end Tree

namespace Document

/-- The kind of the element of a resource that has elements. -/
def bodyKind? : ResourceKind → Option ElementKind
  | .pipeline => some .pipeline
  | .pipelineRun => some .pipelineRun
  | _ => none

/-- The elements of a document with a pipeline or a pipeline run. -/
def sheet? (d : Document) (t : Tree) : Option Sheet := do
  let kind ← d.kind? t
  let bodyKind ← bodyKind? kind
  let body ← d.root? t
  some (.ofOutline kind (.branch .document ⟨d.start, d.stop, none, none⟩
    [(.field "body", some (t.outline (.map bodyKind) body))]))

end Document

namespace Sheet

/-- The innermost element at a line and a column. -/
def findAt (s : Sheet) (lines : LineTable) (line column : Nat) : Except Error (Option Nat) :=
  (lines.offset? line column).map s.find?

end Sheet

end PipelineLens
