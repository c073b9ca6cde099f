import PipelineLens.Number.Decimal
import PipelineLens.Yaml.Tag
/-!
# Directives

A line that starts with a per cent sign says which version of YAML a document follows, or declares a
handle for tags.
-/
namespace PipelineLens.Yaml

inductive Directive where
  | version (major minor : Nat)
  /-- tags with the handle start with `start` -/
  | handle (name : String) (start : List UInt8)
deriving DecidableEq, Repr

namespace Directive

def skipBlanks (gs : List Glyph) : List Glyph := gs.dropWhile (·.isBlank)

/-- A number of at most nine digits. -/
def number? (gs : List Glyph) : Option (Nat × List Glyph) :=
  let (digits, rest) := spanWhile isDigit gs
  if digits.isEmpty ∨ 9 < digits.length then none
  else some (digitsValue digits, rest)

/-- What follows a version directive's name. -/
def version? (gs : List Glyph) : Option (Directive × List Glyph) := do
  let (major, rest) ← number? (skipBlanks gs)
  if !Glyph.oneFollows ['.'] rest then none
  else
    let (minor, rest) ← number? rest.tail
    some (.version major minor, rest)

/-- What follows a handle directive's name. A handle starts with an exclamation mark and, unless
that is all of it, ends with one. -/
def handle? (gs : List Glyph) : Option (Directive × List Glyph) := do
  let gs := skipBlanks gs
  if !Glyph.oneFollows ['!'] gs then none
  else
    let (word, closed, rest) := TagName.handleWord gs.tail
    if !closed && !word.isEmpty then none
    else if !(rest.take 1).any (·.isBlank) then none
    else
      let (start, rest) ← TagName.octets? true (skipBlanks rest)
      if start.isEmpty || !Glyph.gapFollows rest then none
      else
        let name := '!' :: word ++ if closed then ['!'] else []
        some (.handle (String.ofList name) (TagName.shown start), rest)

/-- The directive after a per cent sign, and the lines that follow it. -/
def read? (gs : List Glyph) : Option (Directive × List Glyph) := do
  let (name, rest) := spanWhile isWordChar gs
  if !Glyph.gapFollows rest then none
  else
    let (directive, rest) ←
      if name = "YAML".toList then version? rest
      else if name = "TAG".toList then handle? rest
      else none
    some (directive, ← Glyph.lineEnd? false rest)

end Directive

end PipelineLens.Yaml
