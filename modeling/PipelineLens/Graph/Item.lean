import PipelineLens.Run.State
/-!
# Drawn graphs

A graph is drawn as one list of nodes and edges. A state is given only where there is run data.
-/
namespace PipelineLens.Graph

structure Node where
  id : Option String
  label : String
  type : Option String
  taskRef : Option String
  state : Option RunState
deriving DecidableEq, Repr

structure Edge where
  id : String
  source : String
  target : String
  state : Option RunState
deriving DecidableEq, Repr

inductive Item where
  | node (node : Node)
  | edge (edge : Edge)
deriving DecidableEq, Repr

namespace Item

def node? : Item → Option Node
  | node n => some n
  | edge _ => none

def edge? : Item → Option Edge
  | node _ => none
  | edge e => some e

/-- A field that is left out when there is no value. -/
def field (name : String) (encode : α → Json) : Option α → List (String × Json)
  | some a => [(name, encode a)]
  | none => []

def stateField (state : Option RunState) : List (String × Json) :=
  field "state" (fun s => .string s.name) state

def data : Item → Json
  | node n =>
    .ofFields ([("id", .ofOption .string n.id), ("label", .string n.label)]
      ++ field "type" .string n.type ++ field "taskRef" .string n.taskRef ++ stateField n.state)
  | edge e =>
    .ofFields ([("id", .string e.id), ("source", .string e.source), ("target", .string e.target)]
      ++ stateField e.state)

def toJson (item : Item) : Json := .ofFields [("data", item.data)]

end Item

end PipelineLens.Graph
