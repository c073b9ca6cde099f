import PipelineLens.Number.Digit
import PipelineLens.Yaml.Glyph
/-!
# Tags and anchors

A tag is written after an exclamation mark: in full between angle brackets, or as a handle, which a
directive may have declared, and a suffix. An anchor is a name for a node. Both end at a blank or
the end of the line; some other characters may also follow an anchor, and a comma may follow a tag
inside a flow collection. A tag is made of octets, which may be escaped and need not encode a text;
a zero octet ends it early. `Tag` is what a tag says about its node.
-/
namespace PipelineLens.Yaml

/-- A character of a name. -/
def isWordChar (c : Char) : Bool :=
  ('0' ≤ c && c ≤ '9') || ('A' ≤ c && c ≤ 'Z') || ('a' ≤ c && c ≤ 'z') || c = '_' || c = '-'

/-- The characters at the start of the text for which `p` holds, and the rest. -/
def spanWhile (p : Char → Bool) (gs : List Glyph) : List Char × List Glyph :=
  ((gs.takeWhile fun g => p g.char).map (·.char), gs.dropWhile fun g => p g.char)

namespace Anchor

/-- The name at the start of the text. -/
def read? (gs : List Glyph) : Option (String × List Glyph) :=
  let (name, rest) := spanWhile isWordChar gs
  if name.isEmpty then none
  else if Glyph.gapFollows rest
      || Glyph.oneFollows ['?', ':', ',', ']', '\x7d', '%', '@', '\x60'] rest then
    some (String.ofList name, rest)
  else none

end Anchor

/-- A tag as written. -/
structure TagName where
  /-- empty for a tag written in full -/
  handle : String
  suffix : List UInt8
deriving DecidableEq, Repr

namespace TagName

/-! ## The octets of a tag -/

/-- A character that stands for itself. -/
def isPlain (full : Bool) (c : Char) : Bool :=
  isWordChar c || c ∈ ";/?:@&=+$.!~*\x27()".toList || (full && c ∈ [',', '[', ']'])

/-- How many further octets belong to a character that starts with this one. -/
def further? (octet : Nat) : Option Nat :=
  if octet < 0x80 then some 0
  else if 0xC0 ≤ octet ∧ octet < 0xE0 then some 1
  else if 0xE0 ≤ octet ∧ octet < 0xF0 then some 2
  else if 0xF0 ≤ octet ∧ octet < 0xF8 then some 3
  else none

/-- How many octets are to come after this one, when `more` are to come with it; it starts a
character when none are. -/
def left? (more octet : Nat) : Option Nat :=
  if more = 0 then further? octet else if octet / 64 = 2 then some (more - 1) else none

/-- The rest of a tag of which `octets` have been read, in reverse; `more` are to come for the
character begun last. A per cent sign and two digits give an octet. -/
def scan (full : Bool) (octets : List UInt8) (more : Nat) :
    List Glyph → Option (List UInt8 × List Glyph)
  | [] => if more = 0 then some (octets.reverse, []) else none
  | g :: gs =>
    if g.char = '%' then
      match gs with
      | a :: b :: rest => do
        let octet := 16 * (← hexValue? a.char) + (← hexValue? b.char)
        scan full (.ofNat octet :: octets) (← left? more octet) rest
      | _ => none
    else if more ≠ 0 then none
    else if isPlain full g.char then scan full (.ofNat g.char.toNat :: octets) 0 gs
    else some (octets.reverse, g :: gs)

/-- The octets of a tag at the start of the text. -/
def octets? (full : Bool) (gs : List Glyph) : Option (List UInt8 × List Glyph) := scan full [] 0 gs

/-- The octets of a text. -/
def encode (text : List Char) : List UInt8 := text.flatMap String.utf8EncodeChar

/-- The octets before the first that is zero. -/
def shown (octets : List UInt8) : List UInt8 := octets.takeWhile (· ≠ 0)

/-! ## Whole tags -/

/-- The word after an exclamation mark, whether a further one ends it, and what follows. -/
def handleWord (gs : List Glyph) : List Char × Bool × List Glyph :=
  let (word, rest) := spanWhile isWordChar gs
  match rest with
  | [] => (word, false, [])
  | g :: after => if g.char = '!' then (word, true, after) else (word, false, rest)

/-- The tag at the start of the text, after its exclamation mark, which stands for itself if it is
all of the tag. -/
def body? (gs : List Glyph) : Option (TagName × List Glyph) :=
  if Glyph.oneFollows ['<'] gs then do
    let (octets, rest) ← octets? true gs.tail
    if octets.isEmpty || !Glyph.oneFollows ['>'] rest then none
    else some (⟨"", shown octets⟩, rest.tail)
  else do
    let (word, closed, rest) := handleWord gs
    let (octets, rest) ← octets? false rest
    if closed then
      if octets.isEmpty then none
      else some (⟨String.ofList ('!' :: word ++ ['!']), shown octets⟩, rest)
    else
      let octets := shown (encode word ++ octets)
      if octets.isEmpty then some (⟨"", encode ['!']⟩, rest) else some (⟨"!", octets⟩, rest)

/-- The tag at the start of the text, when it ends there. -/
def read? (inFlow : Bool) (gs : List Glyph) : Option (TagName × List Glyph) := do
  let (name, rest) ← body? gs
  if Glyph.gapFollows rest || (inFlow && Glyph.oneFollows [','] rest) then some (name, rest)
  else none

end TagName

/-! ## What tags say -/

/-- What a tag says about its node. -/
inductive Tag where
  | null
  | bool
  | int
  | float
  /-- a tag of the text's own -/
  | own (name : String)
  /-- a scalar with any other tag is a text -/
  | other
deriving DecidableEq, Repr

namespace Tag

/-- A name without the exclamation mark at its start, unless that is all of it. -/
def bare : List Char → List Char
  | '!' :: c :: cs => c :: cs
  | cs => cs

/-- The tag with this text. Those of the text's own start with an exclamation mark, and a second one
makes no difference. -/
def ofText (text : String) : Tag :=
  if text = "tag:yaml.org,2002:null" then null
  else if text = "tag:yaml.org,2002:bool" then bool
  else if text = "tag:yaml.org,2002:int" then int
  else if text = "tag:yaml.org,2002:float" then float
  else
    match text.toList with
    | '!' :: cs => own (String.ofList (bare (bare ('!' :: cs))))
    | _ => other

/-- The tag with these octets. One of the text's own says nothing if they encode no text. -/
def ofOctets? (octets : List UInt8) : Option Tag :=
  match String.fromUTF8? ⟨octets.toArray⟩ with
  | some text => some (ofText text)
  | none => if octets.head? = some '!'.toUInt8 then none else some other

/-- The name of the tag of a node, if it has one of the text's own. -/
def ownName? : Option Tag → Option String
  | some (own name) => some name
  | _ => none

end Tag

end PipelineLens.Yaml
