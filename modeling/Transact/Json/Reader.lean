import Transact.Json.Basic
import Transact.Number.Decimal
import Transact.Number.Scaling

/-!
# Reading JSON

`Json.read?` gives the value of a JSON text, or `none` when the text is not JSON: trailing commas,
comments, a byte order mark, control characters inside texts, unpaired quotation marks and text
after the value are all refused. How deep the brackets nest does not matter here.
-/

set_option autoImplicit false

namespace Transact.Json

open Text Number

/-- The four characters that may stand between the tokens. -/
def isSpace (c : Char) : Bool := c == ' ' || c == '\t' || c == '\n' || c == '\r'

/-- The text without the spaces in front. -/
def skip (cs : List Char) : List Char := cs.dropWhile isSpace

/-! ## Texts -/

/-- The character that a backslash and `c` stand for. -/
def simpleEscape? (c : Char) : Option Nat :=
  match c with
  | '"' => some 0x22
  | '\\' => some 0x5C
  | '/' => some 0x2F
  | 'b' => some 0x08
  | 'f' => some 0x0C
  | 'n' => some 0x0A
  | 'r' => some 0x0D
  | 't' => some 0x09
  | _ => none

/-- The number that four hexadecimal digits denote. -/
def hexUnit? (a b c d : Char) : Option Nat := do
  let a ← hexValue? a
  let b ← hexValue? b
  let c ← hexValue? c
  let d ← hexValue? d
  pure (((a * 16 + b) * 16 + c) * 16 + d)

/-- The code units of a text up to its closing quotation mark, and the rest. An escape by number
gives one unit, which may be half of a surrogate pair; any other character is its own code point. -/
def units? : List Char → Option (List Nat × List Char)
  | [] => none
  | '"' :: rest => some ([], rest)
  | '\\' :: 'u' :: a :: b :: c :: d :: rest => do
    let unit ← hexUnit? a b c d
    let (units, rest) ← units? rest
    pure (unit :: units, rest)
  | '\\' :: c :: rest => do
    let unit ← simpleEscape? c
    let (units, rest) ← units? rest
    pure (unit :: units, rest)
  | c :: rest =>
    if c.toNat < 0x20 || c = '\\' then none
    else do
      let (units, rest) ← units? rest
      pure (c.toNat :: units, rest)

/-- The first half of a surrogate pair. -/
def isHigh (n : Nat) : Bool := 0xD800 ≤ n && n ≤ 0xDBFF

/-- The second half of a surrogate pair. -/
def isLow (n : Nat) : Bool := 0xDC00 ≤ n && n ≤ 0xDFFF

/-- The characters of a row of code units, unless a half of a surrogate pair stands alone. -/
def unitChars? : List Nat → Option (List Char)
  | [] => some []
  | [n] => if isHigh n || isLow n then none else some [Char.ofNat n]
  | n :: m :: rest =>
    if isHigh n && isLow m then
      (unitChars? rest).map (Char.ofNat (0x10000 + (n - 0xD800) * 0x400 + (m - 0xDC00)) :: ·)
    else if isHigh n || isLow n then none
    else (unitChars? (m :: rest)).map (Char.ofNat n :: ·)

/-- A text after its opening quotation mark. The inner `none` is a text that cannot be read. -/
def text? (cs : List Char) : Option (Option String × List Char) := do
  let (units, rest) ← units? cs
  pure ((unitChars? units).map String.ofList, rest)

/-! ## Numbers -/

/-- Adds digits to a significand of 64 bits. Gives the significand with the digits that fit, and the
digits from the first one on that does not. -/
def accumulate (n : Nat) : List Char → Nat × List Char
  | [] => (n, [])
  | c :: cs =>
    let m := 10 * n + digitValue c
    if m ≤ 18446744073709551615 then accumulate m cs else (n, c :: cs)

/-- The double that `±n · 10^e` is read as, if it is not beyond the finite ones. -/
def floatValue (negative : Bool) (n : Nat) (e : Int) : Json :=
  match Binary64.scaled? n e with
  | some x => .float { x with negative }
  | none => .unreadable

/-- The value of a number without point and exponent. Zero with a sign is a double, and so is what
does not fit in 64 bits. -/
def integerValue (negative : Bool) (whole : List Char) : Json :=
  match accumulate 0 whole with
  | (n, []) =>
    if !negative then .integer n
    else if 0 < n && n ≤ 9223372036854775808 then .integer (-n)
    else .float { Binary64.ofInt n with negative }
  | (n, rest) => floatValue negative n rest.length

/-- The value of a number with a point or an exponent. Digits that do not fit into the significand
only count as places. -/
def decimalValue (negative : Bool) (whole fraction : List Char) (e : Int) : Json :=
  let (n, rest) := accumulate 0 whole
  let (n, rest') := accumulate n fraction
  floatValue negative n (e + rest.length + rest'.length - fraction.length)

/-- The digits after a point, or nothing when there is no point. A point without digits is
refused. -/
def fractionDigits? : List Char → Option (Option (List Char) × List Char)
  | '.' :: cs =>
    let ds := cs.takeWhile isDigit
    if ds.isEmpty then none else some (some ds, cs.dropWhile isDigit)
  | cs => some (none, cs)

/-- The exponent, or nothing when there is none. An exponent without digits is refused. -/
def exponentValue? : List Char → Option (Option Int × List Char)
  | c :: cs =>
    if c = 'e' || c = 'E' then
      let (negative, rest) := sign cs
      let ds := rest.takeWhile isDigit
      if ds.isEmpty then none
      else
        let n : Int := digitsValue ds
        some (some (if negative then -n else n), rest.dropWhile isDigit)
    else some (none, c :: cs)
  | [] => some (none, [])

/-- A number at the front of the text. Its whole part has no leading zero. -/
def number? (cs : List Char) : Option (Json × List Char) := do
  let (negative, rest) :=
    match cs with
    | '-' :: rest => (true, rest)
    | _ => (false, cs)
  let whole := rest.takeWhile isDigit
  if whole.isEmpty || (whole.length > 1 && whole.head? = some '0') then none
  else
    let (fraction, rest) ← fractionDigits? (rest.dropWhile isDigit)
    let (exponent, rest) ← exponentValue? rest
    match fraction, exponent with
    | none, none => pure (integerValue negative whole, rest)
    | _, _ => pure (decimalValue negative whole (fraction.getD []) (exponent.getD 0), rest)

/-! ## Values -/

/-- An object whose field names can all be read. -/
def objectOf (fields : List (Option String × Json)) : Json :=
  match fields.mapM fun (name, value) => name.map (·, value) with
  | some fields => .object fields
  | none => .unreadable

/-- The rest of the text after the word. -/
def word? (word : String) (cs : List Char) : Option (List Char) :=
  if word.toList.isPrefixOf cs then some (cs.drop word.length) else none

mutual

/-- A value at the front of the text, and the rest. Every step down takes one unit of the first
argument, of which twice the length of the text is enough. -/
def value? : Nat → List Char → Option (Json × List Char)
  | 0, _ => none
  | n + 1, cs =>
    match skip cs with
    | [] => none
    | c :: rest =>
      if c = '"' then do
        let (s, rest) ← text? rest
        pure (s.elim .unreadable .string, rest)
      else if c = '[' then
        match skip rest with
        | ']' :: rest => some (.array [], rest)
        | _ => do
          let (items, rest) ← items? n rest
          pure (.array items, rest)
      else if c = '\x7b' then
        match skip rest with
        | '\x7d' :: rest => some (.object [], rest)
        | _ => do
          let (fields, rest) ← fields? n rest
          pure (objectOf fields, rest)
      else if c = 'n' then do pure (.null, ← word? "null" (c :: rest))
      else if c = 't' then do pure (.bool true, ← word? "true" (c :: rest))
      else if c = 'f' then do pure (.bool false, ← word? "false" (c :: rest))
      else number? (c :: rest)

/-- The items of an array up to its closing bracket. -/
def items? : Nat → List Char → Option (List Json × List Char)
  | 0, _ => none
  | n + 1, cs => do
    let (item, rest) ← value? n cs
    match skip rest with
    | ',' :: rest => do
      let (items, rest) ← items? n rest
      pure (item :: items, rest)
    | ']' :: rest => pure ([item], rest)
    | _ => none

/-- The fields of an object up to its closing bracket. -/
def fields? : Nat → List Char → Option (List (Option String × Json) × List Char)
  | 0, _ => none
  | n + 1, cs =>
    match skip cs with
    | '"' :: rest => do
      let (name, rest) ← text? rest
      match skip rest with
      | ':' :: rest => do
        let (value, rest) ← value? n rest
        match skip rest with
        | ',' :: rest => do
          let (fields, rest) ← fields? n rest
          pure ((name, value) :: fields, rest)
        | '\x7d' :: rest => pure ([(name, value)], rest)
        | _ => none
      | _ => none
    | _ => none

end

/-- The value of a JSON text. -/
def read? (s : String) : Option Json := do
  let cs := s.toList
  let (value, rest) ← value? (2 * cs.length + 2) cs
  if (skip rest).isEmpty then some value else none

end Transact.Json
