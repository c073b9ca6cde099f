import PipelineLens.Yaml.Glyph
/-!
# Block scalars

The lines of a block scalar share an indentation, which its header gives or its first line with text
shows. A literal scalar keeps its lines; a folded one joins neighbouring lines by a space unless one
of them starts with a blank. The header says what becomes of the line breaks at the end.
-/
namespace PipelineLens.Yaml.Block

/-- What becomes of the line breaks after the last line. -/
inductive Chomping where
  | strip
  /-- the first is kept -/
  | clip
  | keep
deriving DecidableEq, Repr

structure Header where
  literal : Bool
  chomping : Chomping
  /-- how much further than its surroundings the scalar is indented, if the header says -/
  indent : Option Nat
deriving DecidableEq, Repr

def chomping? (c : Char) : Option Chomping :=
  if c = '+' then some .keep else if c = '-' then some .strip else none

/-- The indentation that a digit gives; there is none for `0`. -/
def indent? (c : Char) : Option Nat :=
  if '1' ≤ c ∧ c ≤ '9' then some (c.toNat - '0'.toNat) else none

/-- What the first character says, if it says anything, and what follows it. -/
def optionally {α : Type} (read? : Char → Option α) : List Glyph → Option α × List Glyph
  | [] => (none, [])
  | g :: gs =>
    match read? g.char with
    | some a => (some a, gs)
    | none => (none, g :: gs)

/-- The header after the character that starts the scalar, and the lines that follow it. Both parts
may be missing, and either may come first. -/
def header? (literal : Bool) (gs : List Glyph) : Option (Header × List Glyph) :=
  let (before, gs) := optionally chomping? gs
  let (indent, gs) := optionally indent? gs
  let (after, gs) := if before.isNone then optionally chomping? gs else (none, gs)
  (Glyph.lineEnd? false gs).map (⟨literal, (before.or after).getD .clip, indent⟩, ·)

/-- The largest column that the spaces at the start of the first lines reach, up to and with the
first line that has more than spaces, or the end of the text, but at least `least`. A tab after them
is refused. -/
def firstIndent? (least : Nat) : List Glyph → Option Nat
  | [] => some least
  | g :: gs =>
    if g.char = ' ' then firstIndent? (max least (g.column + 1)) gs
    else if g.char = '\t' then none
    else if g.isBreak then firstIndent? least gs
    else some least

/-- What has been read of a scalar. -/
structure Progress where
  /-- the text in reverse, without the line breaks below -/
  text : List Char
  /-- the break after the last line with text -/
  first : Option Char
  /-- the breaks after that, the last one first -/
  more : List Char
  /-- whether the last line with text starts with a blank -/
  blankStart : Bool
  /-- whether a line with text is being read -/
  inLine : Bool

namespace Progress

def start : Progress := ⟨[], none, [], false, false⟩

/-- The break after the last line, as it stands in the text before a further line. -/
def joint (literal : Bool) (p : Progress) (blank : Bool) : List Char :=
  if !literal && p.first = some '\n' && !p.blankStart && !blank then
    if p.more.isEmpty then [' '] else []
  else p.first.toList

/-- A line with text starts with `c`. -/
def begin (literal : Bool) (p : Progress) (c : Char) : Progress :=
  ⟨c :: (p.more ++ p.joint literal (isBlank c) ++ p.text), none, [], isBlank c, true⟩

/-- The whole text. -/
def result (p : Progress) : Chomping → List Char
  | .strip => p.text.reverse
  | .clip => (p.first.toList ++ p.text).reverse
  | .keep => (p.more ++ p.first.toList ++ p.text).reverse

end Progress

/-- The text of the lines indented by `indent`, and what follows them. -/
def lines? (h : Header) (indent : Nat) (p : Progress) :
    List Glyph → Option (List Char × List Glyph)
  | [] => some (p.result h.chomping, [])
  | g :: gs =>
    if p.inLine then
      if g.isBreak then
        lines? h indent { p with first := some g.char, more := [], inLine := false } gs
      else lines? h indent { p with text := g.char :: p.text } gs
    else if g.column < indent ∧ g.char = ' ' then lines? h indent p gs
    else if g.column < indent ∧ g.char = '\t' then none
    else if g.isBreak then lines? h indent { p with more := g.char :: p.more } gs
    else if g.column = indent then lines? h indent (p.begin h.literal g.char) gs
    else some (p.result h.chomping, g :: gs)

/-- The text of a scalar after the character that starts it, and what follows it. Around it lines
are indented by less than `margin`; outside all collections that is 0. -/
def read? (literal : Bool) (margin : Nat) (gs : List Glyph) : Option (List Char × List Glyph) := do
  let (h, gs) ← header? literal gs
  let indent ←
    match h.indent with
    | some n => some (margin - 1 + n)
    | none => firstIndent? (max margin 1) gs
  lines? h indent .start gs

end PipelineLens.Yaml.Block
