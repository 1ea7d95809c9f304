import Transact.Number.Shortest

/-!
# JSON values

A JSON text as a tree. Objects keep their fields in the order of the text, repetitions included.
Numbers carry their value: an integer when the text is one and fits in 64 bits, signed or not, and a
double otherwise.
-/

set_option autoImplicit false

namespace Transact

open Number

/-- A JSON value. -/
inductive Json where
  | null
  | bool (b : Bool)
  | integer (i : Int)
  | float (x : Binary64)
  /-- Well-formed, but without a value: a number beyond the doubles, or a text or field name with
  half of a surrogate pair. It may stand only where nobody looks at it. -/
  | unreadable
  | string (s : String)
  | array (items : List Json)
  | object (fields : List (String × Json))

namespace Json

instance : Inhabited Json := ⟨.null⟩

/-- The number of brackets that may be open at once in a text that is decoded. -/
def maxOpen : Nat := 127

/-- Doubles in JSON: positional from `0.00001` up to below `10^16` and then with at least one digit
of fraction, scientific with a signed exponent otherwise. A tie goes to the even digit. -/
def floatStyle : DecimalStyle where
  tie := .toEven
  positional lead := -5 ≤ lead && lead < 16
  point := true

end Json

end Transact
