/-!
# Finite doubles

A finite binary64 number is `±significand · 2^exponent` in its one canonical form, so that equality
of the structures is equality of the bits. Fractions are rounded to it in exact arithmetic, to
nearest with ties to even.
-/

set_option autoImplicit false

namespace Transact.Number

/-- `2^53`, which every significand is less than. -/
abbrev fullBound : Nat := 9007199254740992

/-- `2^52`, the least significand with all 53 bits. -/
abbrev leastFull : Nat := 4503599627370496

/-- A finite double. The exponent is `-1074` or the significand has all of its 53 bits. -/
structure Binary64 where
  negative : Bool
  significand : Nat
  exponent : Int
  significand_lt : significand < fullBound
  le_exponent : -1074 ≤ exponent
  exponent_le : exponent ≤ 971
  canonical : exponent = -1074 ∨ leastFull ≤ significand
deriving DecidableEq

namespace Binary64

/-- Zero, with either sign. -/
def zero (negative : Bool) : Binary64 where
  negative
  significand := 0
  exponent := -1074
  significand_lt := by decide
  le_exponent := by decide
  exponent_le := by decide
  canonical := .inl rfl

instance : Inhabited Binary64 := ⟨zero false⟩

/-- The number with these parts, when they are in range and in canonical form. -/
def ofParts? (negative : Bool) (significand : Nat) (exponent : Int) : Option Binary64 :=
  if h : significand < fullBound ∧ -1074 ≤ exponent ∧ exponent ≤ 971 ∧
      (exponent = -1074 ∨ leastFull ≤ significand) then
    some ⟨negative, significand, exponent, h.1, h.2.1, h.2.2.1, h.2.2.2⟩
  else none

/-- The number is `+0` or `-0`. -/
def isZero (x : Binary64) : Bool := x.significand == 0

/-- Equality of values: the two zeros are equal, all else differs in sign or magnitude. -/
def sameValue (x y : Binary64) : Bool :=
  (x.isZero && y.isZero) ||
    (x.negative == y.negative && x.significand == y.significand && x.exponent == y.exponent)

/-! ## Rounding -/

/-- `n / d` rounded to the nearest integer, a half to the even one. -/
def roundHalfEven (n d : Nat) : Nat :=
  let q := n / d
  let r := n % d
  if 2 * r < d ∨ (2 * r = d ∧ q % 2 = 0) then q else q + 1

/-- The fraction `n / d` measured in units of `2^e`. -/
def inUnits (n d : Nat) (e : Int) : Nat × Nat :=
  (n * Nat.pow 2 (-e).toNat, d * Nat.pow 2 e.toNat)

/-- The exponent at which `n / d` has a significand of 53 bits, or the least one. The bit lengths of
`n` and `d` give the leading bit of the fraction up to one place. -/
def exponentFor (n d : Nat) : Int :=
  let least := max ((n.log2 : Int) - d.log2 - 53) (-1074)
  let (a, b) := inUnits n d least
  if fullBound ≤ a / b then least + 1 else least

/-- The double nearest to `±n / d`, or `none` when it is beyond the finite ones. -/
def ofRatio? (negative : Bool) (n d : Nat) : Option Binary64 :=
  if n = 0 then some (zero negative)
  else
    let e := exponentFor n d
    let (a, b) := inUnits n d e
    let m := roundHalfEven a b
    if m = fullBound then ofParts? negative (leastFull) (e + 1) else ofParts? negative m e

/-- The double nearest to an integer; `0` for one beyond the finite doubles, which no 64-bit integer
is. -/
def ofInt (i : Int) : Binary64 := (ofRatio? (i < 0) i.natAbs 1).getD default

/-! ## Integral part -/

/-- The number without its fraction. -/
def truncate (x : Binary64) : Int :=
  let n : Nat :=
    if 0 ≤ x.exponent then x.significand * Nat.pow 2 x.exponent.toNat
    else x.significand / Nat.pow 2 (-x.exponent).toNat
  if x.negative then -n else n

end Binary64

end Transact.Number
