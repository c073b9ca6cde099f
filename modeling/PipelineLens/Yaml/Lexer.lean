import PipelineLens.Yaml.Text.Block
import PipelineLens.Yaml.Text.Plain
import PipelineLens.Yaml.Text.Quoted
import PipelineLens.Yaml.Token
/-!
# From characters to tokens

A key of a mapping is known as one only at its colon. The lexer remembers where a key may have
started and puts the tokens that open the mapping and the key there afterwards. Such a key stands on
one line and takes at most 1024 octets. Outside flow collections, columns open and close the block
collections.
-/
namespace PipelineLens.Yaml

/-- A place where a key may have started. -/
structure KeyStart where
  /-- whether only a key can stand there -/
  required : Bool
  /-- the number of tokens before it -/
  index : Nat
  line : Nat
  column : Nat
  octet : Nat
deriving Repr

namespace KeyStart

/-- Whether a key that started there cannot go on up to the place of `g`. -/
def isStale (k : KeyStart) (g : Glyph) : Bool := k.line < g.line || k.octet + 1024 < g.octet

/-- A place with the doubt removed: nothing if no key can have started there. A place where only a
key can stand must not go stale. -/
def expire? (key : Option KeyStart) (g : Glyph) : Option (Option KeyStart) :=
  match key with
  | none => some none
  | some k => if !k.isStale g then some (some k) else if k.required then none else some none

end KeyStart

structure Lexer where
  tokens : Array Token
  /-- the columns of the open block collections, the innermost first -/
  indents : List Nat
  /-- whether a key may start at the next token -/
  keyAllowed : Bool
  /-- where a key may have started, inside the innermost flow collection if there is one -/
  key : Option KeyStart
  /-- where one may have started around each of the open flow collections, the innermost first -/
  outer : List (Option KeyStart)

namespace Lexer

def start : Lexer := ⟨#[], [], true, none, []⟩

def inFlow (l : Lexer) : Bool := !l.outer.isEmpty

/-- Where a scalar at the next token stands. -/
def setting (l : Lexer) : Setting where
  margin :=
    match l.indents with
    | [] => 0
    | column :: _ => column + 1
  inFlow := l.inFlow

def emit (l : Lexer) (t : Token) : Lexer := { l with tokens := l.tokens.push t }

/-! ## Keys -/

/-- No key has started. -/
def dropKey? (l : Lexer) : Option Lexer :=
  if l.key.any (·.required) then none else some { l with key := none }

/-- A key may start at the place of `g`, if one is allowed there. -/
def offerKey? (l : Lexer) (g : Glyph) : Option Lexer :=
  if l.keyAllowed then do
    let l ← l.dropKey?
    let required := !l.inFlow && l.indents.head? = some g.column
    some { l with key := some ⟨required, l.tokens.size, g.line, g.column, g.octet⟩ }
  else some l

/-- The lexer at the place of `g`. What is around a flow collection can wait until that is closed.
-/
def expire? (l : Lexer) (g : Glyph) : Option Lexer :=
  (KeyStart.expire? l.key g).map fun key => { l with key := key }

/-! ## Block collections -/

/-- Closes the block collections at larger columns. -/
def closeTo (l : Lexer) (column : Nat) : Lexer :=
  if l.inFlow then l
  else
    let (closed, indents) := l.indents.span fun i => column < i
    { l with
      tokens := l.tokens ++ (List.replicate closed.length Token.blockEnd).toArray
      indents := indents }

/-- Closes all block collections. -/
def closeAll (l : Lexer) : Lexer :=
  if l.inFlow then l
  else
    { l with
      tokens := l.tokens ++ (List.replicate l.indents.length Token.blockEnd).toArray
      indents := [] }

/-- Opens a block collection at `column` by a token at `index`, if the innermost one has a smaller
column. -/
def openAt (l : Lexer) (column index : Nat) (t : Token) : Lexer :=
  if l.inFlow ∨ column < l.setting.margin then l
  else
    { l with
      tokens := l.tokens.insertIdxIfInBounds index t
      indents := column :: l.indents }

/-- Opens a block collection at the next token; nothing else can stand there. -/
def openHere? (l : Lexer) (g : Glyph) (t : Token) : Option Lexer :=
  if l.inFlow then some l
  else if l.keyAllowed then some (l.openAt g.column l.tokens.size t)
  else none

/-! ## Indicators -/

def allow (keyAllowed : Bool) (l : Lexer) : Lexer := { l with keyAllowed := keyAllowed }

def openFlow? (l : Lexer) (g : Glyph) (t : Token) : Option Lexer := do
  let l ← l.offerKey? g
  some ({ l with key := none, outer := l.key :: l.outer, keyAllowed := true }.emit t)

def closeFlow? (l : Lexer) (t : Token) : Option Lexer := do
  let l ← l.dropKey?
  let l := { l with key := (l.outer.head?.getD none), outer := l.outer.tail }
  some ((l.allow false).emit t)

def comma? (l : Lexer) : Option Lexer := do
  some (((← l.dropKey?).allow true).emit .comma)

def dash? (l : Lexer) (g : Glyph) : Option Lexer := do
  let l ← l.openHere? g .blockSequenceStart
  some (((← l.dropKey?).allow true).emit .entry)

def key? (l : Lexer) (g : Glyph) : Option Lexer := do
  let l ← l.openHere? g .blockMappingStart
  some (((← l.dropKey?).allow !l.inFlow).emit .key)

/-- A colon: the key before it has started where one may have, or there is none. -/
def value? (l : Lexer) (g : Glyph) : Option Lexer :=
  match l.key with
  | some k =>
    let l := { l with key := none, tokens := l.tokens.insertIdxIfInBounds k.index .key }
    some (((l.openAt k.column k.index .blockMappingStart).allow false).emit .value)
  | none => do
    let l ← l.openHere? g .blockMappingStart
    some ((l.allow !l.inFlow).emit .value)

/-- A separator of documents or a directive. -/
def toplevel? (l : Lexer) (t : Token) : Option Lexer := do
  some (((← l.closeAll.dropKey?).allow false).emit t)

/-! ## Steps -/

/-- A plain scalar that starts at `g`. -/
def plain? (l : Lexer) (g : Glyph) (gs : List Glyph) : Option (Lexer × List Glyph) := do
  let scalar ← Plain.read? l.setting (g :: gs)
  let l ← l.offerKey? g
  some ((l.allow scalar.broken).emit (.scalar true (String.ofList scalar.text)), scalar.rest)

def quoted? (l : Lexer) (g : Glyph) (gs : List Glyph) : Option (Lexer × List Glyph) := do
  let (text, rest) ← Quoted.read? g.char gs
  let l ← l.offerKey? g
  some ((l.allow false).emit (.scalar false (String.ofList text)), rest)

def block? (l : Lexer) (g : Glyph) (gs : List Glyph) : Option (Lexer × List Glyph) := do
  if l.inFlow then none
  else
    let (text, rest) ← Block.read? (g.char = '|') l.setting.margin gs
    let l ← l.dropKey?
    some ((l.allow true).emit (.scalar false (String.ofList text)), rest)

/-- A name or tag that starts at `g` and comes before a node or stands for one. -/
def property? {α : Type} (l : Lexer) (g : Glyph) (token : α → Token)
    (found : Option (α × List Glyph)) : Option (Lexer × List Glyph) := do
  let (a, rest) ← found
  let l ← l.offerKey? g
  some ((l.allow false).emit (token a), rest)

/-- The token that starts at `g`. -/
def next? (l : Lexer) (g : Glyph) (gs : List Glyph) : Option (Lexer × List Glyph) :=
  let indicator (next : Option Lexer) := next.map (·, gs)
  if g.column = 0 ∧ g.char = '%' then do
    let (directive, rest) ← Directive.read? gs
    some (← l.toplevel? (.directive directive), rest)
  else if Glyph.isMarker '-' (g :: gs) then (l.toplevel? .documentStart).map (·, gs.drop 2)
  else if Glyph.isMarker '.' (g :: gs) then (l.toplevel? .documentEnd).map (·, gs.drop 2)
  else
    match g.char with
    | '[' => indicator (l.openFlow? g .flowSequenceStart)
    | ']' => indicator (l.closeFlow? .flowSequenceEnd)
    | '\x7b' => indicator (l.openFlow? g .flowMappingStart)
    | '\x7d' => indicator (l.closeFlow? .flowMappingEnd)
    | ',' => indicator l.comma?
    | '-' => if Glyph.gapFollows gs then indicator (l.dash? g) else l.plain? g gs
    | '?' => if l.inFlow || Glyph.gapFollows gs then indicator (l.key? g) else l.plain? g gs
    | ':' => if l.inFlow || Glyph.gapFollows gs then indicator (l.value? g) else l.plain? g gs
    | '*' => l.property? g .aliasOf (Anchor.read? gs)
    | '&' => l.property? g .anchor (Anchor.read? gs)
    | '!' => l.property? g .tag (TagName.read? l.inFlow gs)
    | '|' => l.block? g gs
    | '>' => l.block? g gs
    | '"' => l.quoted? g gs
    | '\x27' => l.quoted? g gs
    | '%' => none
    | '@' => none
    | '\x60' => none
    | '\t' => none
    | _ => l.plain? g gs

/-- What follows the blanks, line breaks and comments at the start of the text, and whether a key
may start there. Outside flow collections it may at the start of a line, and only spaces may come
before it. -/
def skip (inFlow : Bool) (keyAllowed comment : Bool) : List Glyph → Bool × List Glyph
  | [] => (keyAllowed, [])
  | g :: gs =>
    if g.isBreak then skip inFlow (keyAllowed || !inFlow) false gs
    else if comment || g.char = ' ' || (g.char = '\t' && (inFlow || !keyAllowed))
        || (g.char = byteOrderMark && g.column = 0) then
      skip inFlow keyAllowed comment gs
    else if g.char = '#' then skip inFlow keyAllowed true gs
    else (keyAllowed, g :: gs)

/-- All tokens, at the end of the text. -/
def finish? (l : Lexer) : Option (List Token) := l.closeAll.dropKey?.map (·.tokens.toList)

/-- The tokens of a text of fewer than `fuel` characters, after those that have been found. -/
def run? (l : Lexer) : (fuel : Nat) → List Glyph → Option (List Token)
  | 0, _ => none
  | fuel + 1, gs =>
    let (keyAllowed, rest) := skip l.inFlow l.keyAllowed false gs
    match rest with
    | [] => l.finish?
    | g :: gs => do
      let l ← (l.allow keyAllowed).expire? g
      let (l, rest) ← (l.closeTo g.column).next? g gs
      run? l fuel rest

end Lexer

/-- The tokens of a text. Each takes at least one character. -/
def Token.ofGlyphs? (gs : List Glyph) : Option (List Token) := Lexer.start.run? (gs.length + 1) gs

end PipelineLens.Yaml
