import PipelineLens.Yaml.Text.Gap
/-!
# Plain scalars

A plain scalar ends before a colon that separates a key from its value, before a comment, before a
line that separates documents and, outside flow collections, where a line is indented too little.
Inside flow collections it also ends before a comma or a bracket.
-/
namespace PipelineLens.Yaml

/-- Where a scalar stands. -/
structure Setting where
  /-- the least column of a line inside the innermost block collection -/
  margin : Nat
  /-- whether it stands inside a flow collection -/
  inFlow : Bool
deriving DecidableEq, Repr

def flowIndicators : List Char := [',', '[', ']', '\x7b', '\x7d']

/-- A plain scalar with what follows it and the gap after it. -/
structure Plain where
  text : List Char
  /-- whether the gap after the scalar goes over the end of a line -/
  broken : Bool
  rest : List Glyph

namespace Plain

/-- Whether the scalar ends at the first of these characters, after a gap. -/
def endsAfter (s : Setting) (gap : Gap) : List Glyph → Bool
  | [] => true
  | g :: gs =>
    !gap.isEmpty
      && (g.char = '#' || (!s.inFlow && g.column < s.margin) || Glyph.atMarker (g :: gs))

/-- Whether the scalar ends before this character. -/
def endsBefore (s : Setting) (c : Char) (gs : List Glyph) : Bool :=
  (c = ':' && Glyph.gapFollows gs) || (s.inFlow && c ∈ flowIndicators)

/-- The rest of a scalar of which `text` has been read, in reverse, and then `gap`. -/
def scan (s : Setting) (text : List Char) (gap : Gap) : List Glyph → Option Plain
  | [] => some ⟨text.reverse, gap.isBroken, []⟩
  | g :: gs =>
    if g.isBlank || g.isBreak then
      if g.char = '\t' ∧ gap.isBroken ∧ g.column < s.margin then none
      else scan s text (gap.add g.char) gs
    else if endsAfter s gap (g :: gs) then some ⟨text.reverse, gap.isBroken, g :: gs⟩
    else if s.inFlow ∧ g.char = ':' ∧ Glyph.oneFollows ('?' :: flowIndicators) gs then none
    else if endsBefore s g.char gs then some ⟨text.reverse, gap.isBroken, g :: gs⟩
    else scan s (g.char :: (gap.folded ++ text)) .empty gs

/-- The scalar at the start of the text. -/
def read? (s : Setting) (gs : List Glyph) : Option Plain := scan s [] .empty gs

end Plain

end PipelineLens.Yaml
