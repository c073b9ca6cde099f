import PipelineLens.Json.Written
import PipelineLens.Json.Numeral
import PipelineLens.Number.Digit
/-!
# Reading JSON text

The text is cut into tokens, and a machine with a stack of unfinished containers takes them one by
one. `read?` gives the text as written; whether its parts have values is not decided here.
-/
namespace PipelineLens.Json

/-! ## Strings -/

/-- A part of a string: a character that stands for itself, or a code unit given by its number. -/
inductive Piece where
  | char (c : Char)
  | unit (value : Nat)

/-- The text of the pieces; a unit of a surrogate pair counts only together with its partner. -/
def Piece.text? : List Piece → Option (List Char)
  | [] => some []
  | .char c :: rest => (text? rest).map (c :: ·)
  | .unit high :: .unit low :: rest =>
    if 0xD800 ≤ high ∧ high ≤ 0xDBFF then
      if 0xDC00 ≤ low ∧ low ≤ 0xDFFF then
        (text? rest).map (Char.ofNat (0x10000 + (high - 0xD800) * 0x400 + (low - 0xDC00)) :: ·)
      else none
    else if 0xDC00 ≤ high ∧ high ≤ 0xDFFF then none
    else (text? (.unit low :: rest)).map (Char.ofNat high :: ·)
  | .unit value :: rest =>
    if 0xD800 ≤ value ∧ value ≤ 0xDFFF then none else (text? rest).map (Char.ofNat value :: ·)

/-- The character that a single letter after a backslash stands for. -/
def plainEscape? (c : Char) : Option Char :=
  match c with
  | '"' => some '"'
  | '\\' => some '\\'
  | '/' => some '/'
  | 'b' => some '\x08'
  | 'f' => some '\x0c'
  | 'n' => some '\n'
  | 'r' => some '\r'
  | 't' => some '\t'
  | _ => none

/-- The rest of a string after its opening quote: its pieces, those `before` first, and what follows
the closing quote. -/
def stringEnd? (before : List Piece) : List Char → Option (List Piece × List Char)
  | [] => none
  | '"' :: rest => some (before.reverse, rest)
  | '\\' :: 'u' :: a :: b :: c :: d :: rest => do
    let value := 0x1000 * (← hexValue? a) + 0x100 * (← hexValue? b) + 0x10 * (← hexValue? c)
      + (← hexValue? d)
    stringEnd? (.unit value :: before) rest
  | '\\' :: e :: rest => do
    let c ← plainEscape? e
    stringEnd? (.char c :: before) rest
  | c :: rest => if c.toNat < 0x20 ∨ c = '\\' then none else stringEnd? (.char c :: before) rest

/-! ## Numbers -/

/-- The digits after a point, if there is one. There must be at least one digit. -/
def fraction? : List Char → Option (List Char × List Char)
  | '.' :: rest =>
    let digits := rest.takeWhile isDigit
    if digits.isEmpty then none else some (digits, rest.dropWhile isDigit)
  | cs => some ([], cs)

/-- Whether an exponent is negative, from the sign before its digits. -/
def exponentSign : List Char → Bool × List Char
  | '+' :: rest => (false, rest)
  | '-' :: rest => (true, rest)
  | cs => (false, cs)

/-- The exponent, if there is one. There must be at least one digit. -/
def exponent? : List Char → Option (Option (Bool × List Char) × List Char)
  | [] => some (none, [])
  | c :: rest =>
    if c = 'e' ∨ c = 'E' then
      let (down, digits) := exponentSign rest
      let run := digits.takeWhile isDigit
      if run.isEmpty then none else some (some (down, run), digits.dropWhile isDigit)
    else some (none, c :: rest)

/-- The numeral at the start of the text, whose sign has been taken off. -/
def numeral? (negative : Bool) (cs : List Char) : Option (Numeral × List Char) := do
  let whole := cs.takeWhile isDigit
  if whole.isEmpty ∨ (whole.head? = some '0' ∧ 1 < whole.length) then none
  else
    let (fraction, rest) ← fraction? (cs.dropWhile isDigit)
    let (exponent, rest) ← exponent? rest
    some (⟨negative, whole, fraction, exponent⟩, rest)

/-! ## Tokens -/

inductive Token where
  | openArray
  | closeArray
  | openObject
  | closeObject
  | comma
  | colon
  /-- a value without parts -/
  | leaf (value : Written)

/-- The token at the start of the text, and the rest. -/
def token? (c : Char) (cs : List Char) : Option (Token × List Char) :=
  match c with
  | '[' => some (.openArray, cs)
  | ']' => some (.closeArray, cs)
  | '\x7b' => some (.openObject, cs)
  | '\x7d' => some (.closeObject, cs)
  | ',' => some (.comma, cs)
  | ':' => some (.colon, cs)
  | '"' =>
    (stringEnd? [] cs).map fun s => (.leaf (.string ((Piece.text? s.1).map String.ofList)), s.2)
  | '-' => (numeral? true cs).map fun n => (.leaf (.number n.1.value?), n.2)
  | 'n' => if cs.take 3 = ['u', 'l', 'l'] then some (.leaf .null, cs.drop 3) else none
  | 't' => if cs.take 3 = ['r', 'u', 'e'] then some (.leaf (.bool true), cs.drop 3) else none
  | 'f' => if cs.take 4 = ['a', 'l', 's', 'e'] then some (.leaf (.bool false), cs.drop 4) else none
  | _ => (numeral? false (c :: cs)).map fun n => (.leaf (.number n.1.value?), n.2)

def isSpace (c : Char) : Bool := c = ' ' || c = '\t' || c = '\n' || c = '\r'

/-- The tokens of a text of at most `fuel` characters, after those `before`. -/
def tokensFrom? (before : List Token) : (fuel : Nat) → List Char → Option (List Token)
  | _, [] => some before.reverse
  | 0, _ => none
  | fuel + 1, c :: cs =>
    if isSpace c then tokensFrom? before fuel cs
    else
      match token? c cs with
      | some (t, rest) => tokensFrom? (t :: before) fuel rest
      | none => none

/-- The tokens of a text. Each takes at least one character. -/
def tokens? (cs : List Char) : Option (List Token) := tokensFrom? [] cs.length cs

/-! ## Structure -/

/-- A container whose end has not been read, with its finished parts, the last one first. -/
inductive Frame where
  | array (items : List Written)
  /-- an object at which a key comes next -/
  | object (fields : List (Option String × Written))
  /-- an object at which the value of `key` comes next -/
  | field (fields : List (Option String × Written)) (key : Option String)

/-- What may come next. -/
inductive Expected where
  | value
  /-- a value or the end of an empty array -/
  | item
  | key
  /-- a key or the end of an empty object -/
  | field
  | colon
  /-- what follows the value `done` -/
  | follow (done : Written)

structure Progress where
  frames : List Frame
  expected : Expected

namespace Progress

def start : Progress := ⟨[], .value⟩

def step? (p : Progress) (t : Token) : Option Progress :=
  match p.expected, t, p.frames with
  | .value, .leaf w, frames => some ⟨frames, .follow w⟩
  | .item, .leaf w, frames => some ⟨frames, .follow w⟩
  | .value, .openArray, frames => some ⟨.array [] :: frames, .item⟩
  | .item, .openArray, frames => some ⟨.array [] :: frames, .item⟩
  | .value, .openObject, frames => some ⟨.object [] :: frames, .field⟩
  | .item, .openObject, frames => some ⟨.object [] :: frames, .field⟩
  | .item, .closeArray, .array _ :: frames => some ⟨frames, .follow (.array [])⟩
  | .field, .closeObject, .object _ :: frames => some ⟨frames, .follow (.object [])⟩
  | .field, .leaf (.string k), .object fields :: frames => some ⟨.field fields k :: frames, .colon⟩
  | .key, .leaf (.string k), .object fields :: frames => some ⟨.field fields k :: frames, .colon⟩
  | .colon, .colon, frames => some ⟨frames, .value⟩
  | .follow w, .comma, .array items :: frames => some ⟨.array (w :: items) :: frames, .value⟩
  | .follow w, .comma, .field fields k :: frames =>
    some ⟨.object ((k, w) :: fields) :: frames, .key⟩
  | .follow w, .closeArray, .array items :: frames =>
    some ⟨frames, .follow (.array (w :: items).reverse)⟩
  | .follow w, .closeObject, .field fields k :: frames =>
    some ⟨frames, .follow (.object ((k, w) :: fields).reverse)⟩
  | _, _, _ => none

/-- The value, when nothing is left unfinished. -/
def result? : Progress → Option Written
  | ⟨[], .follow w⟩ => some w
  | _ => none

end Progress

/-- The value as written in a text, when the text is one JSON value. -/
def Written.read? (text : String) : Option Written := do
  let tokens ← tokens? text.toList
  let progress ← tokens.foldlM Progress.step? Progress.start
  progress.result?

/-- The value of a text. -/
def read? (text : String) : Option Json := (Written.read? text).bind (Written.value? depthLimit)

end PipelineLens.Json
