/-!
# What can go wrong

Missing or misshapen pipeline data is never an error: it reads as "nothing there". An error is a
position outside the text, an inconsistent parse tree, or a fetch that failed. Each error is its
cause; `Error.code` and `Error.message` give the stable code and the wording.
-/
namespace PipelineLens

/-- Why a host parse tree is refused. -/
inductive TreeFault where
  /-- the text does not have the shape of a tree -/
  | shape
  /-- a document, or a node of the kind `what`, starts after it ends -/
  | inverted (what : String) (start stop : Nat)
  /-- the pair that starts at `start` has no key -/
  | keyless (start : Nat)
  /-- a node of a kind that is none of the four -/
  | kind (name : String) (start : Nat)
deriving DecidableEq, Repr

namespace TreeFault

/-- The fault in words. -/
def message : TreeFault → String
  | shape => "invalid tree JSON"
  | inverted what start stop => s!"{what} range {start}..{stop} is inverted"
  | keyless start => s!"pair at {start} has no key"
  | kind name start => s!"unknown node kind '{name}' at {start}"

end TreeFault

inductive Error where
  /-- no such line and column in the text -/
  | position (line column : Nat)
  /-- no such offset in the text -/
  | offset (place : Nat)
  | tree (fault : TreeFault)
  /-- the cluster did not give `resource` -/
  | fetch (resource reason : String)
deriving DecidableEq, Repr

namespace Error

/-- A short code that stays the same whatever the wording. -/
def code : Error → String
  | position .. => "E001"
  | offset .. => "E002"
  | tree .. => "E003"
  | fetch .. => "E004"

/-- The error in words. -/
def message : Error → String
  | position line column => s!"position {line}:{column} is outside the document text"
  | offset place => s!"offset {place} is outside the document text"
  | tree fault => s!"malformed parse tree: {fault.message}"
  | fetch resource reason => s!"failed to fetch {resource}: {reason}"

end Error

end PipelineLens
