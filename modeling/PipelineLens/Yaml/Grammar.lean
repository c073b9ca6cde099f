import PipelineLens.Yaml.Node
import PipelineLens.Yaml.Lexer
/-!
# From tokens to nodes

The grammar of YAML over tokens. Keys, values and items may be missing and then read as nodes
without text. Every function takes the remaining tokens and gives back those it has not used; `fuel`
bounds how deep they call each other, and four times the number of tokens is more than enough.
-/
namespace PipelineLens.Yaml

/-- The remaining tokens and the names known so far. -/
structure Source where
  tokens : List Token
  /-- the numbers of the anchors -/
  names : Std.TreeMap String Nat
  /-- how many anchors there were -/
  anchors : Nat
  /-- the handles of tags with what they stand for -/
  handles : List (String × List UInt8)

namespace Source

def drop (s : Source) : Source := { s with tokens := s.tokens.tail }

/-- Whether the next token is one of these. At the end of the text there is none. -/
def at? (s : Source) (ts : List Token) : Bool := s.tokens.head?.any (· ∈ ts)

/-- The next token, when it is `t`, is used up. -/
def expect? (s : Source) (t : Token) : Option Source := if s.at? [t] then some s.drop else none

/-- An anchor, which has as its number how many different names there were before it. -/
def anchor (s : Source) (name : String) : Label × Source :=
  let label : Label := ⟨s.names.size, s.anchors⟩
  (label, { s with names := s.names.insert name label.number, anchors := s.anchors + 1 })

/-- The tag that a name stands for, if it says anything, when its handle is known. -/
def tag? (s : Source) (name : TagName) : Option (Option Tag) :=
  if name.handle.isEmpty then some (Tag.ofOctets? name.suffix)
  else (s.handles.find? fun h => h.1 = name.handle).map fun h => Tag.ofOctets? (h.2 ++ name.suffix)

end Source

/-- The tag and the anchor before a node. -/
structure Properties where
  anchor : Option String
  tag : Option TagName

namespace Properties

def isEmpty (p : Properties) : Bool := p.anchor.isNone && p.tag.isNone

/-- The properties at the start of the tokens: at most one of each, in either order. -/
def read (s : Source) : Properties × Source :=
  match s.tokens with
  | .anchor a :: .tag t :: rest => (⟨some a, some t⟩, { s with tokens := rest })
  | .tag t :: .anchor a :: rest => (⟨some a, some t⟩, { s with tokens := rest })
  | .anchor a :: rest => (⟨some a, none⟩, { s with tokens := rest })
  | .tag t :: rest => (⟨none, some t⟩, { s with tokens := rest })
  | _ => (⟨none, none⟩, s)

/-- The tag of the node, if it says anything, when its handle is known. -/
def tag? (p : Properties) (s : Source) : Option (Option Tag) :=
  match p.tag with
  | none => some none
  | some name => s.tag? name

/-- The label of the node, which is known from here on. -/
def label (p : Properties) (s : Source) : Option Label × Source :=
  match p.anchor with
  | none => (none, s)
  | some name =>
    let (label, s) := s.anchor name
    (some label, s)

end Properties

/-- Where a node may stand. -/
inductive Context where
  | flow
  /-- an item of a block sequence, or a whole document -/
  | block
  /-- a key or a value of a block mapping, where a sequence may have no indentation of its own -/
  | mapping
deriving DecidableEq, Repr

namespace Grammar

mutual

/-- A node. -/
def node? : (fuel : Nat) → Context → Source → Option (Node × Source)
  | 0, _, _ => none
  | fuel + 1, c, s =>
    match s.tokens with
    | .aliasOf name :: rest =>
      s.names[name]?.map fun number => (.aliasOf number, { s with tokens := rest })
    | _ => do
      let (properties, s) := Properties.read s
      let tag ← properties.tag? s
      let (label, s) := properties.label s
      match s.tokens with
      | .scalar plain text :: rest =>
        some (.scalar label tag plain text, { s with tokens := rest })
      | .flowSequenceStart :: rest =>
        let (items, s) ← flowItems? fuel true { s with tokens := rest }
        some (.sequence label tag items, s)
      | .flowMappingStart :: rest =>
        let (entries, s) ← flowEntries? fuel true { s with tokens := rest }
        some (.mapping label tag entries, s)
      | t :: rest =>
        if t = .entry ∧ c = .mapping then
          let (items, s) ← looseItems? fuel s
          some (.sequence label tag items, s)
        else if t = .blockSequenceStart ∧ c ≠ .flow then
          let (items, s) ← blockItems? fuel { s with tokens := rest }
          some (.sequence label tag items, s)
        else if t = .blockMappingStart ∧ c ≠ .flow then
          let (entries, s) ← blockEntries? fuel { s with tokens := rest }
          some (.mapping label tag entries, s)
        else if properties.isEmpty then none
        else some (.scalar label tag true "", s)
      | [] => if properties.isEmpty then none else some (.scalar label tag true "", s)

/-- A node, or one without text when the next token is one of these. -/
def optional? : (fuel : Nat) → Context → List Token → Source → Option (Node × Source)
  | 0, _, _, _ => none
  | fuel + 1, c, ends, s => if s.at? ends then some (.empty, s) else node? fuel c s

/-- The items of a block sequence, and its end. -/
def blockItems? : (fuel : Nat) → Source → Option (List Node × Source)
  | 0, _ => none
  | fuel + 1, s =>
    if s.at? [.blockEnd] then some ([], s.drop)
    else do
      let s ← s.expect? .entry
      let (item, s) ← optional? fuel .block [.entry, .blockEnd] s
      let (items, s) ← blockItems? fuel s
      some (item :: items, s)

/-- The items of a sequence without indentation of its own. -/
def looseItems? : (fuel : Nat) → Source → Option (List Node × Source)
  | 0, _ => none
  | fuel + 1, s =>
    if !s.at? [.entry] then some ([], s)
    else do
      let (item, s) ← optional? fuel .block [.entry, .key, .value, .blockEnd] s.drop
      let (items, s) ← looseItems? fuel s
      some (item :: items, s)

/-- The entries of a block mapping, and its end. -/
def blockEntries? : (fuel : Nat) → Source → Option (List (Node × Node) × Source)
  | 0, _ => none
  | fuel + 1, s =>
    if s.at? [.blockEnd] then some ([], s.drop)
    else do
      let s ← s.expect? .key
      let (key, s) ← optional? fuel .mapping [.key, .value, .blockEnd] s
      let (value, s) ← value? fuel .mapping [.key, .value, .blockEnd] s
      let (entries, s) ← blockEntries? fuel s
      some ((key, value) :: entries, s)

/-- A value after a colon, or one without text. -/
def value? : (fuel : Nat) → Context → List Token → Source → Option (Node × Source)
  | 0, _, _, _ => none
  | fuel + 1, c, ends, s =>
    if s.at? [.value] then optional? fuel c ends s.drop else some (.empty, s)

/-- The items of a flow sequence, and its end. Between two items stands a comma; one may follow the
last. -/
def flowItems? : (fuel : Nat) → (first : Bool) → Source → Option (List Node × Source)
  | 0, _, _ => none
  | fuel + 1, first, s =>
    if s.at? [.flowSequenceEnd] then some ([], s.drop)
    else do
      let s ← if first then some s else s.expect? .comma
      if s.at? [.flowSequenceEnd] then some ([], s.drop)
      else
        let (item, s) ← if s.at? [.key] then pair? fuel s.drop else node? fuel .flow s
        let (items, s) ← flowItems? fuel false s
        some (item :: items, s)

/-- A mapping of one entry, written as an item of a flow sequence. A token that cannot start its key
is used up. -/
def pair? : (fuel : Nat) → Source → Option (Node × Source)
  | 0, _ => none
  | fuel + 1, s => do
    let (key, s) ←
      if s.at? [.value, .comma, .flowSequenceEnd] then some (.empty, s.drop) else node? fuel .flow s
    let (value, s) ← value? fuel .flow [.comma, .flowSequenceEnd] s
    some (.mapping none none [(key, value)], s)

/-- The entries of a flow mapping, and its end. -/
def flowEntries? : (fuel : Nat) → (first : Bool) → Source → Option (List (Node × Node) × Source)
  | 0, _, _ => none
  | fuel + 1, first, s =>
    if s.at? [.flowMappingEnd] then some ([], s.drop)
    else do
      let s ← if first then some s else s.expect? .comma
      if s.at? [.flowMappingEnd] then some ([], s.drop)
      else
        let (entry, s) ← flowPair? fuel s
        let (entries, s) ← flowEntries? fuel false s
        some (entry :: entries, s)

/-- An entry of a flow mapping. -/
def flowPair? : (fuel : Nat) → Source → Option ((Node × Node) × Source)
  | 0, _ => none
  | fuel + 1, s =>
    if s.at? [.key] then do
      let (key, s) ← optional? fuel .flow [.value, .comma, .flowMappingEnd] s.drop
      let (value, s) ← value? fuel .flow [.comma, .flowMappingEnd] s
      some ((key, value), s)
    else do
      let (key, s) ← node? fuel .flow s
      some ((key, .empty), s)

end

/-! ## Documents -/

/-- The handles that need no directive. -/
def commonHandles : List (String × List UInt8) :=
  [("!", TagName.encode ['!']), ("!!", TagName.encode "tag:yaml.org,2002:".toList)]

/-- The directives at the start of the tokens. There is at most one for the version, which is 1.1 or
1.2, and one for each handle. -/
def directives? (version : Bool) (handles : List (String × List UInt8)) :
    List Token → Option (List (String × List UInt8) × List Token)
  | .directive (.version major minor) :: rest =>
    if version ∨ major ≠ 1 ∨ (minor ≠ 1 ∧ minor ≠ 2) then none else directives? true handles rest
  | .directive (.handle name start) :: rest =>
    if handles.any fun h => h.1 = name then none
    else directives? version ((name, start) :: handles) rest
  | rest => some (handles, rest)

/-- Whether a document without a marker at its start is written here. -/
def isImplicit : List Token → Bool
  | .directive _ :: _ => false
  | .documentStart :: _ => false
  | _ => true

def endsDocument : List Token → Bool
  | [] => true
  | .directive _ :: _ => true
  | .documentStart :: _ => true
  | .documentEnd :: _ => true
  | _ => false

/-- The node of the first document, and what follows it. -/
def first? (fuel : Nat) (tokens : List Token) : Option (Node × Source) := do
  if isImplicit tokens then node? fuel .block ⟨tokens, ∅, 0, commonHandles⟩
  else
    let (handles, tokens) ← directives? false [] tokens
    match tokens with
    | .documentStart :: rest =>
      let s : Source := ⟨rest, ∅, 0, handles ++ commonHandles⟩
      if endsDocument rest then some (.empty, s) else node? fuel .block s
    | _ => none

/-- The only document of a text. -/
def document? (tokens : List Token) : Option Node := do
  let (node, s) ← first? (4 * tokens.length + 4) tokens
  if s.tokens.all fun t => t = .documentEnd then some node else none

end Grammar

/-- The document in a text that has one; an empty text has one without text. -/
def Node.read? (text : String) : Option Node := do
  let tokens ← Token.ofGlyphs? (← Glyph.ofText? text)
  if tokens.isEmpty then some .empty else Grammar.document? tokens

end PipelineLens.Yaml
