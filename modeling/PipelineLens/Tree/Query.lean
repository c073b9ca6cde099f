import PipelineLens.Json.Basic
import PipelineLens.Text.Quoted
import PipelineLens.Tree.Basic
/-!
# Questions about the parse tree

What stands under a key of a mapping, the text of a scalar, where the key of a value starts, and the
JSON value of a subtree. A key is compared without its quotes; of several pairs with one key the
first is found, while in the JSON value the last one counts.
-/
namespace PipelineLens

namespace Node

def isMapping (n : Node) : Bool :=
  match n.body with
  | .mapping _ => true
  | _ => false

def isSequence (n : Node) : Bool :=
  match n.body with
  | .sequence _ => true
  | _ => false

/-- The text of the node without its quotes. -/
def decoded (n : Node) : String := Text.unquote n.raw

end Node

namespace Tree

def body? (t : Tree) (id : Nat) : Option Body := (t.node? id).map (·.body)

/-- The pairs of a mapping; none of anything else. -/
def pairs (t : Tree) (id : Nat) : List Nat :=
  match t.body? id with
  | some (.mapping pairs) => pairs
  | _ => []

/-- The items of a sequence; none of anything else. -/
def items (t : Tree) (id : Nat) : List Nat :=
  match t.body? id with
  | some (.sequence items) => items
  | _ => []

/-- The key and the value of a pair. -/
def pairParts? (t : Tree) (id : Nat) : Option (Nat × Option Nat) :=
  match t.body? id with
  | some (.pair key value) => some (key, value)
  | _ => none

def isMapping (t : Tree) (id : Nat) : Bool := (t.node? id).any (·.isMapping)

/-- The text of any node without its quotes. -/
def decoded? (t : Tree) (id : Nat) : Option String := (t.node? id).map (·.decoded)

/-- The key of a pair without its quotes. -/
def keyText? (t : Tree) (id : Nat) : Option String := (t.pairParts? id).bind fun p => t.decoded? p.1

/-- The first pair of a mapping with this key. -/
def findPair? (t : Tree) (mapping : Nat) (key : String) : Option Nat :=
  (t.pairs mapping).find? fun pair => t.keyText? pair = some key

/-- The value of the first pair with this key. -/
def findValue? (t : Tree) (mapping : Nat) (key : String) : Option Nat :=
  ((t.findPair? mapping key).bind t.pairParts?).bind (·.2)

/-- The text of a scalar without its quotes. -/
def scalarText? (t : Tree) (id : Nat) : Option String :=
  (t.node? id).bind fun n =>
    match n.body with
    | .scalar => some n.decoded
    | _ => none

/-- The text of the scalar under a key. -/
def findText? (t : Tree) (mapping : Nat) (key : String) : Option String :=
  (t.findValue? mapping key).bind t.scalarText?

/-- Where the key starts, for the value of a pair. -/
def keyStart? (t : Tree) (id : Nat) : Option Nat := do
  let node ← t.node? id
  let (key, value) ← t.pairParts? (← node.parent)
  if value = some id then (t.node? key).map (·.start) else none

/-! ## What is found lies below -/

theorem lt_of_mem_pairs {t : Tree} {id c : Nat} (h : c ∈ t.pairs id) : c < id := by
  cases hn : t.node? id with
  | none => simp [pairs, body?, hn] at h
  | some n =>
    cases hb : n.body <;> simp [pairs, body?, hn, hb] at h
    exact lt_of_mem_children hn (by simp [Node.children, hb, Body.children, h])

theorem lt_of_mem_items {t : Tree} {id c : Nat} (h : c ∈ t.items id) : c < id := by
  cases hn : t.node? id with
  | none => simp [items, body?, hn] at h
  | some n =>
    cases hb : n.body <;> simp [items, body?, hn, hb] at h
    exact lt_of_mem_children hn (by simp [Node.children, hb, Body.children, h])

theorem lt_of_pairParts? {t : Tree} {id key value : Nat}
    (h : t.pairParts? id = some (key, some value)) : value < id := by
  cases hn : t.node? id with
  | none => simp [pairParts?, body?, hn] at h
  | some n =>
    cases hb : n.body <;> simp [pairParts?, body?, hn, hb] at h
    exact lt_of_mem_children hn (by simp [Node.children, hb, Body.children, h.2])

/-- The value under a key is that of a pair with this key. -/
theorem exists_pair_of_findValue? {t : Tree} {id value : Nat} {key : String}
    (h : t.findValue? id key = some value) :
    ∃ pair k, pair ∈ t.pairs id ∧ t.keyText? pair = some key ∧
      t.pairParts? pair = some (k, some value) := by
  simp only [findValue?, Option.bind_eq_some_iff] at h
  obtain ⟨⟨k, v⟩, ⟨pair, hpair, hparts⟩, hv⟩ := h
  obtain rfl : v = some value := hv
  have hkey : t.keyText? pair = some key := by simpa using List.find?_some hpair
  exact ⟨pair, k, List.mem_of_find?_eq_some hpair, hkey, hparts⟩

theorem lt_of_findValue? {t : Tree} {id value : Nat} {key : String}
    (h : t.findValue? id key = some value) : value < id := by
  obtain ⟨pair, k, hpair, -, hparts⟩ := exists_pair_of_findValue? h
  exact Nat.lt_trans (lt_of_pairParts? hparts) (lt_of_mem_pairs hpair)

/-! ## Subtrees as JSON -/

/-- A subtree as JSON. Every scalar is a string; a pair stands for its value. -/
def toJson (t : Tree) (id : Nat) : Json :=
  match _hn : t.node? id with
  | none => .null
  | some n =>
    match _hb : n.body with
    | .scalar => .string n.decoded
    | .sequence items => .array (items.attach.map fun c => t.toJson c.1)
    | .mapping pairs =>
      .ofFields (pairs.attach.filterMap fun c => (t.keyText? c.1).map (·, t.toJson c.1))
    | .pair _ none => .null
    | .pair _ (some value) => t.toJson value
termination_by id
decreasing_by
  · exact lt_of_mem_children _hn (by simp [Node.children, _hb, Body.children, c.2])
  · exact lt_of_mem_children _hn (by simp [Node.children, _hb, Body.children, c.2])
  · exact lt_of_mem_children _hn (by simp [Node.children, _hb, Body.children])

end Tree

/-- The first mapping among the top-level nodes of a document. -/
def Document.root? (d : Document) (t : Tree) : Option Nat := d.nodes.find? t.isMapping

end PipelineLens
