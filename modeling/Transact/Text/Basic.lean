/-!
# Text

Small operations on text that the rest of the library builds on: joining with a separator, splitting
at a character, cutting at the first occurrence of a text, decimal and hexadecimal digits. Texts are
scanned as lists of characters.
-/

set_option autoImplicit false

namespace Transact.Text

/-! ## Joining and splitting -/

/-- The texts in order, with `sep` between neighbours. -/
def join (sep : String) : List String → String
  | [] => ""
  | [s] => s
  | s :: t :: rest => s ++ sep ++ join sep (t :: rest)

/-- The pieces between the occurrences of `sep`; a text without it is its only piece. -/
def split (sep : Char) : List Char → List (List Char)
  | [] => [[]]
  | c :: cs =>
    if c = sep then [] :: split sep cs
    else
      match split sep cs with
      | [] => [[c]]
      | piece :: pieces => (c :: piece) :: pieces

/-- Every occurrence of `c` written twice. -/
def double (c : Char) (cs : List Char) : List Char :=
  cs.flatMap fun d => if d = c then [d, d] else [d]

/-! ## Searching -/

/-- The text before and after the first occurrence of `needle`. -/
def cut (needle : List Char) : List Char → Option (List Char × List Char)
  | [] => if needle.isEmpty then some ([], []) else none
  | c :: cs =>
    if needle.isPrefixOf (c :: cs) then some ([], (c :: cs).drop needle.length)
    else (cut needle cs).map fun (before, after) => (c :: before, after)

/-- `needle` occurs somewhere in the text. -/
def occurs (needle text : List Char) : Bool :=
  (cut needle text).isSome

/-- The first occurrence of `needle` replaced; the text itself when there is none. -/
def replaceFirst (needle replacement text : List Char) : List Char :=
  match cut needle text with
  | some (before, after) => before ++ replacement ++ after
  | none => text

/-! ## Digits -/

/-- An ASCII digit. -/
def isDigit (c : Char) : Bool := '0' ≤ c && c ≤ '9'

/-- The value of a digit. -/
def digitValue (c : Char) : Nat := c.toNat - '0'.toNat

/-- The number that a row of digits denotes; `0` for the empty row. -/
def digitsValue (cs : List Char) : Nat :=
  cs.foldl (fun n c => 10 * n + digitValue c) 0

/-- The decimal digits of a number, without leading zeros. -/
def digits (n : Nat) : List Char := Nat.toDigits 10 n

/-- The decimal text of a number. -/
def natural (n : Nat) : String := String.ofList (digits n)

/-- The decimal text of an integer, with a sign only when it is negative. -/
def integer (i : Int) : String :=
  match i with
  | .ofNat n => natural n
  | .negSucc n => "-" ++ natural (n + 1)

/-- `n` in decimal, filled up with zeros in front to at least `width` digits. -/
def padded (width n : Nat) : String :=
  String.ofList ((digits n).leftpad width '0')

/-- The hexadecimal digit of `n < 16`, in capitals. -/
def hexDigit (n : Nat) : Char :=
  if n < 10 then Char.ofNat ('0'.toNat + n) else Char.ofNat ('A'.toNat + (n - 10))

/-- The value of a hexadecimal digit in either case. -/
def hexValue? (c : Char) : Option Nat :=
  if '0' ≤ c && c ≤ '9' then some (c.toNat - '0'.toNat)
  else if 'a' ≤ c && c ≤ 'f' then some (c.toNat - 'a'.toNat + 10)
  else if 'A' ≤ c && c ≤ 'F' then some (c.toNat - 'A'.toNat + 10)
  else none

end Transact.Text
