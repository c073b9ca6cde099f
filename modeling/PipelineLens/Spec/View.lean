import PipelineLens.Tree.Query
/-!
# Views of a pipeline spec

A spec is read either from the parse tree of the open document or from a JSON value. `SpecView` is
what extraction sees of it: the value under a key, the items of a sequence, the text of a scalar,
whether it is a mapping, and where it starts in the text, if it stands in one.
-/
namespace PipelineLens

class SpecView (σ : Type) where
  field? : σ → String → Option σ
  items : σ → List σ
  text? : σ → Option String
  isMapping : σ → Bool
  offset? : σ → Option Nat

namespace SpecView

variable {σ : Type} [SpecView σ]

/-- The text of the scalar under a key. -/
def fieldText? (s : σ) (key : String) : Option String := (field? s key).bind text?

/-- The items of the sequence under a key. -/
def fieldItems (s : σ) (key : String) : List σ := ((field? s key).map items).getD []

end SpecView

/-- In JSON a field that is null is missing, and numbers and truth values have a text too. -/
instance : SpecView Json where
  field? j key := (j.field? key).filter fun value => !value.isNull
  items
    | .array items => items
    | _ => []
  text?
    | .string s => some s
    | .number n => some n.text
    | .bool b => some (if b then "true" else "false")
    | _ => none
  isMapping
    | .object _ => true
    | _ => false
  offset? _ := none

/-- A node together with its tree. -/
structure TreeNode where
  tree : Tree
  id : Nat

instance : SpecView TreeNode where
  field? n key := (n.tree.findValue? n.id key).map (TreeNode.mk n.tree)
  items n := (n.tree.items n.id).map (TreeNode.mk n.tree)
  text? n := n.tree.scalarText? n.id
  isMapping n := n.tree.isMapping n.id
  offset? n := (n.tree.node? n.id).map (·.start)

end PipelineLens
