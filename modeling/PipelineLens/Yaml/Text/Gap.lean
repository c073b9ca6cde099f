import PipelineLens.Yaml.Glyph
/-!
# Gaps inside scalars

The blanks and line breaks between two words of a flow scalar are folded: within a line they stay, a
single line break reads as a space, and of several line breaks all but the first stay.
-/
namespace PipelineLens.Yaml

/-- Blanks and line breaks whose text is not settled yet. -/
inductive Gap where
  /-- blanks within a line, the last one first -/
  | blanks (cs : List Char)
  /-- line breaks: the first, unless it does not count, and the others, the last one first -/
  | breaks (first : Option Char) (more : List Char)
deriving DecidableEq, Repr

namespace Gap

def empty : Gap := blanks []

def isEmpty : Gap → Bool
  | blanks cs => cs.isEmpty
  | breaks .. => false

/-- Whether the gap goes over the end of a line. -/
def isBroken : Gap → Bool
  | blanks _ => false
  | breaks .. => true

/-- The gap with a further blank or line break. Blanks around line breaks do not count. -/
def add (g : Gap) (c : Char) : Gap :=
  match g with
  | blanks cs => if isBreak c then breaks (some c) [] else blanks (c :: cs)
  | breaks first more => if isBreak c then breaks first (c :: more) else g

/-- What the gap reads as, in reverse. -/
def folded : Gap → List Char
  | blanks cs => cs
  | breaks none more => more
  | breaks (some c) more =>
    if c ≠ '\n' then more ++ [c] else if more.isEmpty then [' '] else more

end Gap

end PipelineLens.Yaml
