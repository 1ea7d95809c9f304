import Transact.Calendar.Writer
import Transact.Literal
import Transact.Number.Clamp
import Transact.Number.Decimal
import Transact.Number.Shortest
import Transact.Text.Blank

/-!
# Constants in SQL

The text of a constant, coerced to the type of the column that it is bound to. Text constants are
national (`N'...'`) unless the column is known to hold single-byte text.
-/

set_option autoImplicit false

namespace Transact.Sql

open Text Number

/-! ## Quoted text -/

/-- The apostrophe, which delimits text. -/
def apostrophe : Char := '\x27'

/-- Makes every apostrophe of a text stand for itself. An apostrophe after a backslash and a pair of
apostrophes are taken to be escaped already and stay as they are; any other is doubled. `before` is
the character that stands in front. -/
def escapeAfter : Char → List Char → List Char
  | _, [] => []
  | before, c :: cs =>
    if c = apostrophe then
      if before = '\\' then c :: escapeAfter before cs
      else
        match cs with
        | [] => [c, c]
        | d :: ds =>
          if d = apostrophe then c :: d :: escapeAfter c ds
          else c :: c :: escapeAfter c (d :: ds)
    else c :: escapeAfter c cs

/-- A text between apostrophes. -/
def quoted (s : String) : String :=
  String.ofList (apostrophe :: escapeAfter (Char.ofNat 0) s.toList ++ [apostrophe])

/-- A national text. -/
def national (s : String) : String := "N" ++ quoted s

/-! ## Numbers and bytes -/

/-- Doubles in SQL: the shortest digits, never an exponent, and no point without a fraction. A tie
goes to the larger decimal. -/
def floatStyle : DecimalStyle where
  tie := .up
  positional _ := true
  point := false

/-- The text of a double. -/
def float (x : Binary64) : String := floatStyle.render x

/-- A byte as two hexadecimal digits. -/
def hexByte (b : UInt8) : List Char := [hexDigit (b.toNat / 16), hexDigit (b.toNat % 16)]

/-- Bytes in hexadecimal. -/
def hex (bytes : List UInt8) : String := "0x" ++ String.ofList (bytes.flatMap hexByte)

/-- The bytes of a text in UTF-8. -/
def utf8 (s : String) : List UInt8 := s.toList.flatMap String.utf8EncodeChar

/-- The integer at the front of a text, after blanks; `0` when there is none or it does not fit in
64 bits. -/
def integerPrefix (s : String) : Int :=
  match leadingInteger? (trimStart s.toList) with
  | some i => if fitsInt64 i then i else 0
  | none => 0

/-- The double at the front of a text, after blanks; `0` when there is none or it is not finite. -/
def floatPrefix (s : String) : Binary64 :=
  ((leadingDecimal? (trimStart s.toList)).bind Decimal.toBinary64?).getD (.zero false)

/-! ## Constants -/

/-- The text of a constant that is bound to a column of type `ty`, if it is bound to one. -/
def literal (v : Literal) (ty : Option ColumnType) : String :=
  match v, ty with
  | .null, _ => "NULL"
  | .string s, some .integer => integer (integerPrefix s)
  | .string s, some .float => float (floatPrefix s)
  | .string s, some .binary => hex (utf8 s)
  | .string s, some .narrowString => quoted s
  | .string s, _ => national s
  | .integer i, some .string => national (integer i.toInt)
  | .integer i, some .narrowString => quoted (integer i.toInt)
  | .integer i, some .float => float (.ofInt i.toInt)
  | .integer i, _ => integer i.toInt
  | .float x, some .integer => integer (clamp x.truncate).toInt
  | .float x, _ => float x
  | .boolean b, _ => if b then "1" else "0"
  | .date d, _ => quoted d.text
  | .dateTime t, some .date => quoted t.date.text
  | .dateTime t, some .time => quoted t.time.milliText
  | .dateTime t, _ => quoted t.milliText
  | .time t, _ => quoted t.milliText
  | .binary bytes, _ => hex bytes

end Transact.Sql
