import PipelineLens.Error
import PipelineLens.Json.Printer
import PipelineLens.Json.Reader
import PipelineLens.Json.Record
import PipelineLens.Tree.Layout
/-!
# Parse trees from the host

The host sends a parse tree as JSON text. Each node names its kind and has a place for the children
of every kind; only those of its own kind count. `Parsed.read` accepts the text when it has this
shape, no range ends before it starts, every kind is known and every pair has a key; otherwise it
reports the first fault, from left to right, a document before its nodes, the range of a node before
its kind, and a key before its value.
-/
namespace PipelineLens

/-- A node as the host sends it. -/
inductive HostNode where
  | mk (kind raw : String) (start stop : Nat) (mappings : List HostNode)
    (items : List (Option HostNode)) (key value : Option HostNode)

/-- A document as the host sends it. -/
structure HostDocument where
  nodes : List HostNode
  errors : List Json
  start : Nat
  stop : Nat

namespace HostNode

def fields : List String :=
  ["kind", "raw", "startPosition", "endPosition", "mappings", "items", "key", "value"]

/-- A node, with at most `depth` nodes inside each other. -/
def read? : (depth : Nat) → Json.Part → Option HostNode
  | 0, _ => none
  | depth + 1, d => do
    match ← Data.record? fields d with
    | [kind, raw, start, stop, mappings, items, key, value] =>
      some <| mk
        (← Data.required Data.text? kind)
        (← Data.orElse "" Data.text? raw)
        (← Data.required Data.count? start)
        (← Data.required Data.count? stop)
        (← Data.orElse [] (Data.listOf (read? depth)) mappings)
        (← Data.orElse [] (Data.listOf fun i => Data.optional (read? depth) (some i)) items)
        (← Data.optional (read? depth) key)
        (← Data.optional (read? depth) value)
    | _ => none

/-- Refuses a range that ends before it starts. -/
def checkRange (what : String) (start stop : Nat) : Except TreeFault Unit :=
  if stop < start then .error (.inverted what start stop) else .ok ()

mutual

/-- The node and what counts below it, or the first fault among them. -/
def layout : HostNode → Except TreeFault Layout
  | mk kind raw start stop mappings items key value => do
    checkRange kind start stop
    if kind = "SCALAR" then return .scalar raw start stop
    else if kind = "MAPPING" then return .mapping raw start stop (← layouts mappings)
    else if kind = "SEQ" then return .sequence raw start stop (← itemLayouts items)
    else if kind = "PAIR" then
      match key with
      | none => throw (.keyless start)
      | some k =>
        let k ← layout k
        match value with
        | none => return .key start stop k
        | some v => return .pair start stop k (← layout v)
    else throw (.kind kind start)

def layouts : List HostNode → Except TreeFault (List Layout)
  | [] => return []
  | n :: ns => do
    let l ← layout n
    return l :: (← layouts ns)

/-- Items without a node are left out. -/
def itemLayouts : List (Option HostNode) → Except TreeFault (List Layout)
  | [] => return []
  | none :: ns => itemLayouts ns
  | some n :: ns => do
    let l ← layout n
    return l :: (← itemLayouts ns)

end

end HostNode

namespace HostDocument

def fields : List String := ["nodes", "errors", "startPosition", "endPosition"]

def read? (d : Json.Part) : Option HostDocument := do
  match ← Data.record? fields d with
  | [nodes, errors, start, stop] =>
    some
      { nodes := ← Data.orElse [] (Data.listOf (HostNode.read? Json.depthLimit)) nodes
        errors := ← Data.orElse [] (Data.listOf Data.json?) errors
        start := ← Data.required Data.count? start
        stop := ← Data.required Data.count? stop }
  | _ => none

/-- All documents of a text. -/
def readAll? (d : Json.Part) : Option (List HostDocument) := do
  match ← Data.record? ["documents"] d with
  | [documents] => Data.orElse [] (Data.listOf read?) documents
  | _ => none

/-- What a message of the parser says: a string itself, or the message of an object that has one. -/
def errorText (error : Json) : String :=
  match error with
  | .string s => s
  | e => ((e.field? "message").bind Json.string?).getD e.render

def draft (d : HostDocument) : Except TreeFault Document.Draft := do
  HostNode.checkRange "document" d.start d.stop
  return ⟨← HostNode.layouts d.nodes, d.errors.map errorText, d.start, d.stop⟩

end HostDocument

namespace Parsed

/-- The tree of the documents, or the first fault in them. -/
def ofHost (ds : List HostDocument) : Except TreeFault Parsed :=
  (ds.mapM HostDocument.draft).map ofDrafts

/-- The tree in a JSON text. -/
def read (text : String) : Except Error Parsed :=
  match (Json.Written.read? text).bind fun w => HostDocument.readAll? (Json.Part.whole w) with
  | none => .error (.tree .shape)
  | some ds => (ofHost ds).mapError .tree

end Parsed

end PipelineLens
