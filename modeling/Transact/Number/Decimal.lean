import Transact.Number.Binary64
import Transact.Text.Basic

/-!
# Decimal numbers

A decimal number `±coefficient · 10^exponent`, the double nearest to it, and the longest numeral at
the front of a text.
-/

set_option autoImplicit false

namespace Transact.Number

open Transact.Text

/-- The value `±coefficient · 10^exponent`. -/
structure Decimal where
  negative : Bool
  coefficient : Nat
  exponent : Int
deriving DecidableEq

namespace Decimal

/-- The double nearest to the decimal, or `none` when it is beyond the finite ones. Decimals that
are clearly too large or too small are told from their number of digits alone. -/
def toBinary64? (d : Decimal) : Option Binary64 :=
  let size := (digits d.coefficient).length + d.exponent
  if d.coefficient = 0 then some (.zero d.negative)
  else if 310 < size then none
  else if size < -330 then some (.zero d.negative)
  else
    Binary64.ofRatio? d.negative (d.coefficient * Nat.pow 10 d.exponent.toNat)
      (Nat.pow 10 (-d.exponent).toNat)

end Decimal

/-! ## Numerals -/

/-- A sign in front of a numeral, if there is one, and the rest. -/
def sign : List Char → Bool × List Char
  | '-' :: cs => (true, cs)
  | '+' :: cs => (false, cs)
  | cs => (false, cs)

/-- The exponent part `e5`, `E+5`, `e-5` at the front of a text; `0` when none can be read there. -/
def exponentPart : List Char → Int
  | c :: cs =>
    if c = 'e' ∨ c = 'E' then
      let (negative, rest) := sign cs
      let n := digitsValue (rest.takeWhile isDigit)
      if negative then -n else n
    else 0
  | [] => 0

/-- The decimal that the longest numeral at the front of the text denotes: an optional sign, digits
with an optional point and at least one digit on either side of it, and an optional exponent. -/
def leadingDecimal? (cs : List Char) : Option Decimal :=
  let (negative, rest) := sign cs
  let whole := rest.takeWhile isDigit
  let rest := rest.dropWhile isDigit
  let (fraction, rest) :=
    match rest with
    | '.' :: after => (after.takeWhile isDigit, after.dropWhile isDigit)
    | _ => ([], rest)
  if whole.isEmpty && fraction.isEmpty then none
  else
    some ⟨negative, digitsValue (whole ++ fraction), exponentPart rest - fraction.length⟩

/-- The integer that the longest numeral at the front of the text denotes: an optional sign and at
least one digit. -/
def leadingInteger? (cs : List Char) : Option Int :=
  let (negative, rest) := sign cs
  let whole := rest.takeWhile isDigit
  if whole.isEmpty then none
  else if negative then some (-digitsValue whole)
  else some (digitsValue whole)

end Transact.Number
