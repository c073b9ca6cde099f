/-!
# The parse tree

The nodes of a parse tree stand in one array and name each other by their index. A node comes after
everything below it: `Tree.below` says that the children of a node have smaller indices, so that
every walk down the tree ends. Indices are natural numbers; trees with fewer than `2 ^ 32` nodes are
meant, whose indices fit in 32 bits.
-/
namespace PipelineLens

/-- What a node is, with the indices of the nodes directly below it. -/
inductive Body where
  | scalar
  /-- the pairs of a mapping, in the order of the text -/
  | mapping (pairs : List Nat)
  | sequence (items : List Nat)
  /-- a key, and the value unless it has not been written yet -/
  | pair (key : Nat) (value : Option Nat)
deriving DecidableEq, Repr

namespace Body

def children : Body → List Nat
  | scalar => []
  | mapping pairs => pairs
  | sequence items => items
  | pair key value => key :: value.toList

end Body

structure Node where
  /-- the text of the node; that of a pair is the text of its key -/
  raw : String
  start : Nat
  /-- the offset after the last character -/
  stop : Nat
  parent : Option Nat
  body : Body
deriving DecidableEq, Repr

namespace Node

def children (n : Node) : List Nat := n.body.children

/-- Whether the offset `pos` lies inside the node. -/
def contains (n : Node) (pos : Nat) : Bool := n.start ≤ pos && pos < n.stop

end Node

structure Tree where
  nodes : Array Node
  below : ∀ (id : Nat) (h : id < nodes.size), ∀ c ∈ nodes[id].children, c < id
deriving DecidableEq

namespace Tree

def size (t : Tree) : Nat := t.nodes.size

def node? (t : Tree) (id : Nat) : Option Node := t.nodes[id]?

def empty : Tree := ⟨#[], fun id h => absurd h (by simp)⟩

theorem lt_of_mem_children {t : Tree} {id c : Nat} {n : Node} (hn : t.node? id = some n)
    (hc : c ∈ n.children) : c < id := by
  obtain ⟨h, rfl⟩ := Array.getElem?_eq_some_iff.1 hn
  exact t.below id h c hc

end Tree

/-- One document of a text. -/
structure Document where
  /-- the nodes that have no parent; usually a single mapping -/
  nodes : List Nat
  /-- what the parser had to say -/
  errors : List String
  start : Nat
  stop : Nat
deriving DecidableEq, Repr

namespace Document

def contains (d : Document) (pos : Nat) : Bool := d.start ≤ pos && pos < d.stop

end Document

/-- The tree of a text and the documents in it. -/
structure Parsed where
  tree : Tree
  documents : List Document
deriving DecidableEq

namespace Parsed

def empty : Parsed := ⟨Tree.empty, []⟩

end Parsed

end PipelineLens
