import Transact.Json.Basic

/-!
# Writing JSON

The text of a JSON value, without blanks. Texts escape the quotation mark, the backslash and the
control characters below U+0020.
-/

set_option autoImplicit false

namespace Transact.Json

open Text

/-- A character inside a JSON text. -/
def escaped (c : Char) : List Char :=
  if c = '"' then ['\\', '"']
  else if c = '\\' then ['\\', '\\']
  else if c.toNat = 0x08 then ['\\', 'b']
  else if c.toNat = 0x09 then ['\\', 't']
  else if c.toNat = 0x0A then ['\\', 'n']
  else if c.toNat = 0x0C then ['\\', 'f']
  else if c.toNat = 0x0D then ['\\', 'r']
  else if c.toNat < 0x20 then
    ['\\', 'u', '0', '0'] ++ (Nat.toDigits 16 c.toNat).leftpad 2 '0'
  else [c]

/-- A text between quotation marks. -/
def quoted (s : String) : String :=
  "\"" ++ String.ofList (s.toList.flatMap escaped) ++ "\""

mutual

/-- The text of a value. -/
def write : Json → String
  | .null => "null"
  | .bool true => "true"
  | .bool false => "false"
  | .integer i => Text.integer i
  | .float x => floatStyle.render x
  | .unreadable => "null"
  | .string s => quoted s
  | .array items => "[" ++ join "," (writeItems items) ++ "]"
  | .object fields => "\x7b" ++ join "," (writeFields fields) ++ "\x7d"

/-- The texts of the items of an array. -/
def writeItems : List Json → List String
  | [] => []
  | item :: items => write item :: writeItems items

/-- The texts of the fields of an object. -/
def writeFields : List (String × Json) → List String
  | [] => []
  | (name, value) :: fields => (quoted name ++ ":" ++ write value) :: writeFields fields

end

end Transact.Json
