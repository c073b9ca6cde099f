import Std.Data.TreeMap.Lemmas
import PipelineLens.Run.Overlay
/-!
# The network of tasks

Tasks are drawn through a directed graph in which an edge may occur more than once. `Multigraph` is
what drawing uses of it: nodes and edges get numbers, a node keeps a weight, and the edges that end
at a node are listed in no particular order. `LawfulMultigraph` is what drawing relies on, and
`Network` is such a graph.

A `TaskGraph` has a node for every task. The order in which a task's edges were added is found again
by their numbers.
-/
namespace PipelineLens.Graph

/-- A directed graph with weighted nodes, in which an edge may occur more than once. -/
class Multigraph (γ : Type) where
  empty : γ
  /-- the graph with one node more, and the number of that node -/
  addNode : γ → (weight : Nat) → γ × Nat
  /-- the graph with one edge more, and the number of that edge -/
  addEdge : γ → (source target : Nat) → γ × Nat
  weight? : γ → (node : Nat) → Option Nat
  /-- the number and the source of each edge that ends at a node -/
  incoming : γ → (node : Nat) → List (Nat × Nat)

open Multigraph

/-- Edges are numbered in the order in which they are added, and those that end at a node are the
ones that were added with it as their target. -/
class LawfulMultigraph (γ : Type) [Multigraph γ] : Prop where
  weight?_addNode_self (g : γ) (w : Nat) : weight? (addNode g w).1 (addNode g w).2 = some w
  weight?_addNode (g : γ) (w n v : Nat) : weight? g n = some v → weight? (addNode g w).1 n = some v
  weight?_addEdge (g : γ) (s t n : Nat) : (weight? g s).isSome → (weight? g t).isSome →
    weight? (addEdge g s t).1 n = weight? g n
  incoming_empty (n : Nat) : incoming (empty : γ) n = []
  incoming_addNode (g : γ) (w n : Nat) : (incoming (addNode g w).1 n).Perm (incoming g n)
  incoming_addEdge (g : γ) (s t n : Nat) : (weight? g s).isSome → (weight? g t).isSome →
    (incoming (addEdge g s t).1 n).Perm
      (if t = n then ((addEdge g s t).2, s) :: incoming g n else incoming g n)
  lt_addEdge (g : γ) (s t n : Nat) : (weight? g s).isSome → (weight? g t).isSome →
    ∀ e ∈ incoming g n, e.1 < (addEdge g s t).2

/-! ## A graph with tables -/

/-- Nodes and edges are numbered from zero on. The edges that end at a node are kept with it, the
one added last first. -/
structure Network where
  weights : Array Nat
  edges : Std.TreeMap Nat (List (Nat × Nat))
  edgeCount : Nat
  lt_edgeCount : ∀ n, ∀ e ∈ edges.getD n [], e.1 < edgeCount

namespace Network

def addEdge (g : Network) (source target : Nat) : Network where
  weights := g.weights
  edges := g.edges.insert target ((g.edgeCount, source) :: g.edges.getD target [])
  edgeCount := g.edgeCount + 1
  lt_edgeCount := by
    intro n e he
    simp only [Std.TreeMap.getD_insert, Std.LawfulEqCmp.compare_eq_iff_eq] at he
    split at he
    · rcases List.mem_cons.1 he with rfl | he
      · simp
      · exact Nat.lt_succ_of_lt (g.lt_edgeCount _ e he)
    · exact Nat.lt_succ_of_lt (g.lt_edgeCount _ e he)

end Network

instance : Multigraph Network where
  empty := ⟨#[], ∅, 0, by simp⟩
  addNode g weight := ({ g with weights := g.weights.push weight }, g.weights.size)
  addEdge g source target := (g.addEdge source target, g.edgeCount)
  weight? g node := g.weights[node]?
  incoming g node := g.edges.getD node []

instance : LawfulMultigraph Network where
  weight?_addNode_self g w := by simp [weight?, addNode]
  weight?_addNode g w n v h := by
    obtain ⟨hn, -⟩ := Array.getElem?_eq_some_iff.1 h
    simpa [weight?, addNode, Array.getElem?_push, Nat.ne_of_lt hn] using h
  weight?_addEdge g s t n _ _ := rfl
  incoming_empty n := by simp [incoming, empty]
  incoming_addNode g w n := .refl _
  incoming_addEdge g s t n _ _ := by
    by_cases h : t = n
    · subst h
      simp [incoming, addEdge, Network.addEdge]
    · simp [incoming, addEdge, Network.addEdge, Std.TreeMap.getD_insert, h]
  lt_addEdge g s t n _ _ := g.lt_edgeCount n

/-! ## Tasks as a graph -/

/-- The node of the first task with each id. -/
abbrev Owners := Std.TreeMap String Nat

namespace Owners

/-- A task that comes before all others. -/
def add (t : RunNode × Nat) (owners : Owners) : Owners :=
  match t.1.task.id with
  | some id => owners.insert id t.2
  | none => owners

def ofNodes (nodes : List (RunNode × Nat)) : Owners := nodes.foldr add ∅

theorem getElem?_ofNodes (nodes : List (RunNode × Nat)) (id : String) :
    (ofNodes nodes)[id]? = (nodes.find? fun t => t.1.task.id = some id).map (·.2) := by
  induction nodes with
  | nil => simp [ofNodes]
  | cons t ts ih =>
    rw [ofNodes, List.foldr_cons, ← ofNodes, add, List.find?_cons]
    cases ht : t.1.task.id with
    | none => simpa using ih
    | some own =>
      by_cases h : own = id
      · simp [h]
      · simpa [Std.TreeMap.getElem?_insert, h] using ih

end Owners

/-- The nodes that a task runs after. A task does not run after itself, and an id that no task has
counts for nothing. -/
def sourcesOf (owners : Owners) (t : RunNode) : List Nat :=
  match t.task.id with
  | none => []
  | some id => (t.task.runAfter.filter (· ≠ id)).filterMap fun dependency => owners[dependency]?

/-- A graph with the node of each task, whose weight is the position of the task. -/
structure TaskGraph (γ : Type) where
  graph : γ
  nodes : Array Nat

namespace TaskGraph

variable {γ : Type} [Multigraph γ]

/-- One node more, for the task at `position`. -/
def addTask (g : TaskGraph γ) (position : Nat) : TaskGraph γ :=
  let added := addNode g.graph position
  ⟨added.1, g.nodes.push added.2⟩

/-- A node for each task, and no edges. -/
def ofCount (count : Nat) : TaskGraph γ := (List.range count).foldl addTask ⟨empty, #[]⟩

/-- Edges between nodes, given by source and target, one after the other. -/
def connect (g : γ) (edges : List (Nat × Nat)) : γ :=
  edges.foldl (fun g e => (addEdge g e.1 e.2).1) g

/-- Source and target of each edge that a task needs. -/
def edgesOf (owners : Owners) (t : RunNode × Nat) : List (Nat × Nat) :=
  (sourcesOf owners t.1).map (·, t.2)

/-- The graph of a list of tasks. -/
def ofTasks (tasks : List RunNode) : TaskGraph γ :=
  let g : TaskGraph γ := ofCount tasks.length
  let nodes := tasks.zip g.nodes.toList
  { g with graph := connect g.graph (nodes.flatMap (edgesOf (.ofNodes nodes))) }

/-- The edges that end at a node, in the order of their numbers. -/
def sorted (g : γ) (node : Nat) : List (Nat × Nat) :=
  (incoming g node).mergeSort fun a b => a.1 ≤ b.1

/-- The positions of the tasks that the task at `position` runs after. -/
def predecessors (g : TaskGraph γ) (position : Nat) : List Nat :=
  match g.nodes[position]? with
  | none => []
  | some node => (sorted g.graph node).filterMap fun e => weight? g.graph e.2

end TaskGraph

end PipelineLens.Graph
