import PipelineLens.Json.Basic
/-!
# JSON as text

Compact text: no space between the parts, fields in the order of their keys. In a string only the
quote, the backslash and the control characters are escaped.
-/
namespace PipelineLens.Json

/-- The two hexadecimal digits of a control character. -/
def controlDigits (c : Char) : List Char :=
  (Nat.toDigits 16 (c.toNat / 16)) ++ (Nat.toDigits 16 (c.toNat % 16))

/-- How `c` stands in a string. -/
def escaped (c : Char) : List Char :=
  if c = '"' then ['\\', '"']
  else if c = '\\' then ['\\', '\\']
  else if c = '\n' then ['\\', 'n']
  else if c = '\r' then ['\\', 'r']
  else if c = '\t' then ['\\', 't']
  else if c = '\x08' then ['\\', 'b']
  else if c = '\x0c' then ['\\', 'f']
  else if c.toNat < 0x20 then ['\\', 'u', '0', '0'] ++ controlDigits c
  else [c]

def quoted (s : String) : String :=
  String.ofList ('"' :: (s.toList.flatMap escaped) ++ ['"'])

mutual

/-- The text before, followed by the text of a value. -/
def write (before : String) : Json → String
  | null => before ++ "null"
  | bool true => before ++ "true"
  | bool false => before ++ "false"
  | number n => before ++ n.text
  | string s => before ++ quoted s
  | array [] => before ++ "[]"
  | array (item :: items) => writeItems (write (before ++ "[") item) items
  | object [] => before ++ "\x7b\x7d"
  | object ((key, value) :: fields) =>
    writeFields (write (before ++ "\x7b" ++ quoted key ++ ":") value) fields

/-- The further items of an array and its end. -/
def writeItems (before : String) : List Json → String
  | [] => before ++ "]"
  | item :: items => writeItems (write (before ++ ",") item) items

/-- The further fields of an object and its end. -/
def writeFields (before : String) : List (String × Json) → String
  | [] => before ++ "\x7d"
  | (key, value) :: fields => writeFields (write (before ++ "," ++ quoted key ++ ":") value) fields

end

def render (j : Json) : String := write "" j

end PipelineLens.Json
