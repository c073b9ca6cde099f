import PipelineLens.Yaml.Grammar
/-!
# Reading a YAML document

A document is read from its leaves up: a `Reading` says what a scalar is read as, and what a
collection is, from what its parts are read as. An alias is read as the node it stands for, which
is read once, however many aliases stand for it. Collections may stand 128 deep in each other, and
a document must not follow aliases more than a hundred times for each of its parts; both count as
if each alias were written out.
-/
namespace PipelineLens.Yaml

/-- How scalars and collections are read, when something is kept from one to the next. -/
structure Reading (σ α : Type) where
  scalar : Option Tag → (plain : Bool) → String → StateT σ Option α
  sequence : Option Tag → List α → StateT σ Option α
  mapping : Option Tag → List (α × α) → StateT σ Option α

/-- A node that has been read. -/
structure Part (α : Type) where
  value : α
  /-- how deep collections stand in it -/
  depth : Nat
  /-- how many aliases are followed in it -/
  follows : Nat

/-- The collection of some parts. -/
def Part.around {α : Type} (value : α) (parts : List (Part α)) : Part α where
  value := value
  depth := parts.foldl (fun depth part => max depth part.depth) 0 + 1
  follows := parts.foldl (fun follows part => follows + part.follows) 0

/-- What is known of the nodes with anchors, by their places; of one that is being read, nothing. -/
abbrev Progress (α : Type) := Std.TreeMap Nat (Option (Part α))

/-- A walk over a document. -/
abbrev Walk (σ α : Type) := StateT (Progress α) (StateT σ Option)

namespace Walk

variable {σ α : Type}

/-- The node at a place, which is read if it has not been before. Inside itself there is no end to
it. -/
def once (place : Nat) (read : Walk σ α (Part α)) : Walk σ α (Part α) := do
  match (← get)[place]? with
  | some (some part) => return part
  | some none => failure
  | none =>
    modify fun progress => progress.insert place none
    let part ← read
    modify fun progress => progress.insert place (some part)
    return part

/-- A node that is no alias, where `inside` reads what stands in a collection. -/
def content (r : Reading σ α) (inside : Node → Walk σ α (Part α)) : Node → Walk σ α (Part α)
  | .scalar _ tag plain text => return ⟨← r.scalar tag plain text, 0, 0⟩
  | .sequence _ tag items => do
    let parts ← items.mapM inside
    return .around (← r.sequence tag (parts.map (·.value))) parts
  | .mapping _ tag entries => do
    let parts ← entries.mapM fun e => return (← inside e.1, ← inside e.2)
    let value ← r.mapping tag (parts.map fun e => (e.1.value, e.2.value))
    return .around value (parts.flatMap fun e => [e.1, e.2])
  | .aliasOf _ => failure

/-- A node, where `inside` reads what stands in a collection. -/
def nodeWith (targets : Node.Targets) (r : Reading σ α) (inside : Node → Walk σ α (Part α)) :
    Node → Walk σ α (Part α)
  | .aliasOf number =>
    match targets[number]? with
    | some (place, target) => do
      let part ← once place (content r inside target)
      return { part with follows := part.follows + 1 }
    | none => failure
  | n =>
    match n.label? with
    | some label => once label.place (content r inside n)
    | none => content r inside n

/-- A node with nodes inside each other, itself included, up to `room` deep. -/
def node (targets : Node.Targets) (r : Reading σ α) : (room : Nat) → Node → Walk σ α (Part α)
  | 0 => fun _ => failure
  | room + 1 => nodeWith targets r (node targets r room)

end Walk

/-- How deep collections may stand in each other. -/
def depthLimit : Nat := 128

/-- How often a document may follow aliases for each of its parts. -/
def followLimit : Nat := 100

/-- What a document is read as, when nothing is kept but `start` at first. -/
def Reading.document? {σ α : Type} (r : Reading σ α) (start : σ) (root : Node) : Option α := do
  let ((part, _), _) ← ((Walk.node (root.targets ∅) r (depthLimit + 1) root).run ∅).run start
  if part.depth ≤ depthLimit ∧ part.follows ≤ followLimit * root.weight then some part.value
  else none

end PipelineLens.Yaml
