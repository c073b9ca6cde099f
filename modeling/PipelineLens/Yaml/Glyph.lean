/-!
# Characters and their places

YAML gives meaning to columns, so a text is read as a list of characters that know where they stand.
Every line break of the text is one character; a carriage return, a line feed, both together and a
next-line character all read as a line feed. A text with a control character is refused.
-/
namespace PipelineLens.Yaml

/-- A character of a text with its place. -/
structure Glyph where
  char : Char
  line : Nat
  column : Nat
  /-- how many octets come before it on its line -/
  octet : Nat
deriving DecidableEq, Repr, Inhabited

/-- The line and paragraph separators break lines too, and are kept as they are. -/
def isBreak (c : Char) : Bool := c = '\n' || c = '\u2028' || c = '\u2029'

def isBlank (c : Char) : Bool := c = ' ' || c = '\t'

/-- A character that a text may have. -/
def isPrintable (c : Char) : Bool :=
  let n := c.toNat
  n = 0x09 || n = 0x0A || n = 0x0D || (0x20 ≤ n && n ≤ 0x7E) || n = 0x85 || (0xA0 ≤ n && n ≤ 0xFFFD)
    || 0x10000 ≤ n

/-- The mark that may stand at the start of a line without being part of it. -/
def byteOrderMark : Char := '\uFEFF'

/-- The characters with one line feed for each break that can be written in several ways. -/
def unifyBreaks : List Char → List Char
  | [] => []
  | '\r' :: '\n' :: rest => '\n' :: unifyBreaks rest
  | c :: rest => (if c = '\r' ∨ c = '\u0085' then '\n' else c) :: unifyBreaks rest

namespace Glyph

/-- The characters from a place on. -/
def place (line column octet : Nat) : List Char → List Glyph
  | [] => []
  | c :: cs =>
    ⟨c, line, column, octet⟩ ::
      if isBreak c then place (line + 1) 0 0 cs
      else place line (column + 1) (octet + c.utf8Size) cs

/-- The characters of a text, unless one of them is not allowed. -/
def ofText? (text : String) : Option (List Glyph) :=
  if text.toList.all isPrintable then some (place 0 0 0 (unifyBreaks text.toList)) else none

def isBlank (g : Glyph) : Bool := Yaml.isBlank g.char

def isBreak (g : Glyph) : Bool := Yaml.isBreak g.char

/-- Whether the text goes on with a blank or a line break, or ends. -/
def gapFollows : List Glyph → Bool
  | [] => true
  | g :: _ => g.isBlank || g.isBreak

/-- Whether the text goes on with one of these characters. -/
def oneFollows (cs : List Char) : List Glyph → Bool
  | [] => false
  | g :: _ => g.char ∈ cs

/-- Whether three times `c` stands alone at the start of a line. -/
def isMarker (c : Char) : List Glyph → Bool
  | a :: b :: d :: rest =>
    a.column = 0 && a.char = c && b.char = c && d.char = c && gapFollows rest
  | _ => false

/-- Whether a line that separates documents starts here. -/
def atMarker (gs : List Glyph) : Bool := isMarker '-' gs || isMarker '.' gs

/-- What follows a comment, if there is one, up to and with the end of the line. Anything else
before the end of the line is refused. -/
def lineEnd? (comment : Bool) : List Glyph → Option (List Glyph)
  | [] => some []
  | g :: gs =>
    if g.isBreak then some gs
    else if comment || g.isBlank then lineEnd? comment gs
    else if g.char = '#' then lineEnd? true gs
    else none

end Glyph

end PipelineLens.Yaml
