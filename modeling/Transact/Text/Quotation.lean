import Transact.Text.Basic
import Transact.Text.Lower
import Transact.Text.HiddenRanges

/-!
# Quotations

How a text from the input is shown inside a message: between quotation marks, with everything that
would not show, or would end the quotation, written by its escape.
-/

set_option autoImplicit false

namespace Transact.Text

/-- The hexadecimal digits of `n` in small letters. -/
def hexLower (n : Nat) : List Char := Nat.toDigits 16 n

/-- A character as it stands in a quotation. -/
def quotedChar (c : Char) : List Char :=
  if c.toNat = 0 then ['\\', '0']
  else if c = '\t' then ['\\', 't']
  else if c = '\r' then ['\\', 'r']
  else if c = '\n' then ['\\', 'n']
  else if c = '\\' then ['\\', '\\']
  else if c = '"' then ['\\', '"']
  else if c.toNat < 0x20 || c.toNat = 0x7F || inRanges hiddenRanges c.toNat then
    ['\\', 'u', '\x7b'] ++ hexLower c.toNat ++ ['\x7d']
  else [c]

/-- The text between quotation marks. -/
def quotation (s : String) : String :=
  "\"" ++ String.ofList (s.toList.flatMap quotedChar) ++ "\""

end Transact.Text
