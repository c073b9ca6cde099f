import PipelineLens.Number.Digit
import PipelineLens.Yaml.Text.Gap
/-!
# Quoted scalars

Between single quotes only a doubled quote has a meaning of its own. Between double quotes a
backslash starts an escape: a letter for a character, the number of a character, or a line break
that does not count. A line that separates documents cannot stand inside either.
-/
namespace PipelineLens.Yaml.Quoted

/-- The character that a letter after a backslash stands for. -/
def named? (c : Char) : Option Char :=
  match c with
  | '0' => some '\x00'
  | 'a' => some '\x07'
  | 'b' => some '\x08'
  | 't' => some '\t'
  | '\t' => some '\t'
  | 'n' => some '\n'
  | 'v' => some '\x0b'
  | 'f' => some '\x0c'
  | 'r' => some '\r'
  | 'e' => some '\x1b'
  | ' ' => some ' '
  | '"' => some '"'
  | '/' => some '/'
  | '\\' => some '\\'
  | 'N' => some '\u0085'
  | '_' => some '\u00a0'
  | 'L' => some '\u2028'
  | 'P' => some '\u2029'
  | _ => none

/-- How many digits give the number of a character after this letter. -/
def digitCount? (c : Char) : Option Nat :=
  match c with
  | 'x' => some 2
  | 'u' => some 4
  | 'U' => some 8
  | _ => none

/-- The character with a number that is not a surrogate. -/
def character? (n : Nat) : Option Char := if n.isValidChar then some (Char.ofNat n) else none

/-- What is being read. -/
inductive Within where
  /-- text, after a gap -/
  | text (gap : Gap)
  /-- what follows a backslash -/
  | escape
  /-- the number of a character: how many digits are to come, and the value of those before -/
  | number (digits value : Nat)

/-- The rest of a scalar between double quotes of which `text` has been read, in reverse. -/
def doubleEnd? (text : List Char) : Within → List Glyph → Option (List Char × List Glyph)
  | _, [] => none
  | .text gap, g :: gs =>
    if g.isBlank || g.isBreak then doubleEnd? text (.text (gap.add g.char)) gs
    else if Glyph.atMarker (g :: gs) then none
    else if g.char = '"' then some ((gap.folded ++ text).reverse, gs)
    else if g.char = '\\' then doubleEnd? (gap.folded ++ text) .escape gs
    else doubleEnd? (g.char :: (gap.folded ++ text)) (.text .empty) gs
  | .escape, g :: gs =>
    if g.isBreak then doubleEnd? text (.text (.breaks none [])) gs
    else
      match digitCount? g.char, named? g.char with
      | some digits, _ => doubleEnd? text (.number digits 0) gs
      | none, some c => doubleEnd? (c :: text) (.text .empty) gs
      | none, none => none
  | .number digits value, g :: gs =>
    match hexValue? g.char with
    | none => none
    | some d =>
      if 1 < digits then doubleEnd? text (.number (digits - 1) (16 * value + d)) gs
      else
        match character? (16 * value + d) with
        | some c => doubleEnd? (c :: text) (.text .empty) gs
        | none => none

/-- The rest of a scalar between single quotes of which `text` has been read, in reverse. -/
def singleEnd? (text : List Char) (gap : Gap) : List Glyph → Option (List Char × List Glyph)
  | [] => none
  | g :: gs =>
    if g.isBlank || g.isBreak then singleEnd? text (gap.add g.char) gs
    else if Glyph.atMarker (g :: gs) then none
    else if g.char ≠ '\x27' then singleEnd? (g.char :: (gap.folded ++ text)) .empty gs
    else
      match gs with
      | [] => some ((gap.folded ++ text).reverse, [])
      | h :: rest =>
        if h.char = '\x27' then singleEnd? ('\x27' :: (gap.folded ++ text)) .empty rest
        else some ((gap.folded ++ text).reverse, h :: rest)

/-- The text of a scalar after its opening quote, and what follows the closing one. -/
def read? (quote : Char) (gs : List Glyph) : Option (List Char × List Glyph) :=
  if quote = '"' then doubleEnd? [] (.text .empty) gs else singleEnd? [] .empty gs

end PipelineLens.Yaml.Quoted
