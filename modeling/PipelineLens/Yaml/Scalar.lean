import PipelineLens.Json.Basic
import PipelineLens.Number.Digit
import PipelineLens.Yaml.Tag
/-!
# What scalars stand for

A plain scalar stands for null, a truth value or a number if it is written like one, and for a text
otherwise; so do scalars with the tags of these types, which must be written like that. All other
scalars are texts.
-/
namespace PipelineLens.Yaml

inductive Scalar where
  | null
  | bool (value : Bool)
  | number (value : Json.Number)
  | text (value : String)
deriving DecidableEq, Repr

namespace Scalar

def isNullText (text : String) : Bool := text ∈ ["null", "Null", "NULL", "~"]

def bool? (text : String) : Option Bool :=
  if text ∈ ["true", "True", "TRUE"] then some true
  else if text ∈ ["false", "False", "FALSE"] then some false
  else none

/-! ## Whole numbers -/

/-- The number that one or more digits write in a base of at most sixteen. -/
def natural? (base : Nat) (cs : List Char) : Option Nat :=
  if cs.isEmpty then none
  else
    cs.foldlM (fun n c => (hexValue? c).bind fun d =>
      if d < base then some (base * n + d) else none) 0

/-- A number without a sign. In decimal it does not start with a zero, unless it is zero. -/
def unsigned? : List Char → Option Nat
  | '0' :: 'x' :: cs => natural? 16 cs
  | '0' :: 'o' :: cs => natural? 8 cs
  | '0' :: 'b' :: cs => natural? 2 cs
  | '0' :: _ :: _ => none
  | cs => natural? 10 cs

/-- A whole number of any size. -/
def whole? : List Char → Option Int
  | '+' :: cs => (unsigned? cs).map fun n => n
  | '-' :: cs => (unsigned? cs).map fun n => -n
  | cs => (unsigned? cs).map fun n => n

/-- Whether a number has a place among the whole numbers: with 64 bits, or with a sign and 64. -/
def isWord (n : Int) : Bool := -0x8000000000000000 ≤ n && n ≤ 0xFFFFFFFFFFFFFFFF

/-- Whether a number that is too large is refused; numbers of more than 128 bits are not. -/
def isRefused (n : Int) : Bool :=
  !isWord n && -0x80000000000000000000000000000000 ≤ n && n ≤ 0xFFFFFFFFFFFFFFFFFFFFFFFFFFFFFFFF

/-! ## Other numbers -/

/-- An exponent at the end of a number, zero if there is none. -/
def exponent? : List Char → Option Int
  | [] => some 0
  | c :: cs =>
    if c ≠ 'e' ∧ c ≠ 'E' then none
    else
      match cs with
      | '+' :: ds => (natural? 10 ds).map fun n => n
      | '-' :: ds => (natural? 10 ds).map fun n => -n
      | ds => (natural? 10 ds).map fun n => n

/-- The digits after a point, if there is one, and what follows. -/
def fraction : List Char → List Char × List Char
  | '.' :: cs => cs.span isDigit
  | cs => ([], cs)

/-- A decimal number. There is at least one digit, before or after the point. -/
def decimal? (cs : List Char) : Option Decimal := do
  let (digits, cs) := cs.span isDigit
  let (places, cs) := fraction cs
  let exponent ← exponent? cs
  if digits.isEmpty ∧ places.isEmpty then none
  else some ⟨digitsValue (digits ++ places), exponent - places.length⟩

/-- The double nearest to a decimal number, unless that is too large. -/
def finite? (negative : Bool) (cs : List Char) : Option Binary64 := do
  let x := Binary64.ofDecimal negative (← decimal? cs)
  if x.isFinite then some x else none

def infinity (negative : Bool) : Binary64 := .ofFloat (if negative then -1 / 0 else 1 / 0)

def notANumber : Binary64 := .ofFloat (0 / 0)

def float? (text : String) : Option Binary64 :=
  if text ∈ [".nan", ".NaN", ".NAN"] then some notANumber
  else if text ∈ [".inf", ".Inf", ".INF", "+.inf", "+.Inf", "+.INF"] then some (infinity false)
  else if text ∈ ["-.inf", "-.Inf", "-.INF"] then some (infinity true)
  else
    match text.toList with
    | '+' :: cs => finite? false cs
    | '-' :: cs => finite? true cs
    | cs => finite? false cs

/-- Whether a text has only digits after its sign, the first of them a zero that does not count. -/
def isPadded (cs : List Char) : Bool :=
  match cs with
  | '+' :: '0' :: c :: ds => (c :: ds).all isDigit
  | '-' :: '0' :: c :: ds => (c :: ds).all isDigit
  | '0' :: c :: ds => (c :: ds).all isDigit
  | _ => false

/-! ## Resolution -/

/-- A whole number as a scalar, if it is not too large. -/
def ofWhole? (n : Int) : Option Scalar := if isWord n then some (number (.int n)) else none

/-- What a number that is not a whole number, or a text, stands for. -/
def ofOther (text : String) : Scalar :=
  match if isPadded text.toList then none else float? text with
  | some x => number (.float x)
  | none => .text text

/-- What a plain scalar stands for, unless it is a whole number that is refused. -/
def ofPlain? (text : String) : Option Scalar :=
  if text.isEmpty ∨ isNullText text then some null
  else
    match bool? text, whole? text.toList with
    | some b, _ => some (bool b)
    | none, some n => if isWord n ∨ isRefused n then ofWhole? n else some (ofOther text)
    | none, none => some (ofOther text)

/-- What a scalar with this tag stands for, if it is written like that. -/
def read? (tag : Option Tag) (plain : Bool) (text : String) : Option Scalar :=
  match tag with
  | some .null => if isNullText text then some null else none
  | some .bool => (bool? text).map bool
  | some .int => (whole? text.toList).bind ofWhole?
  | some .float => (float? text).map fun x => number (.float x)
  | some _ => some (.text text)
  | none => if plain then ofPlain? text else some (.text text)

/-- The scalar as JSON, which has no place for infinity and what is not a number. -/
def toJson : Scalar → Json
  | null => .null
  | bool b => .bool b
  | number (.int n) => .number (.int n)
  | number (.float x) => if x.isFinite then .number (.float x) else .null
  | text s => .string s

end Scalar

end PipelineLens.Yaml
