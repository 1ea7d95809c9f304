import Transact.Number.Binary64
import Transact.Text.Basic

/-!
# Shortest decimals

The decimal with the fewest digits that reads back as a given double, and of those the nearest to
it, found in exact arithmetic: the grids of multiples of `10^k` are tried from the coarsest on, and
on each only the two neighbours of the number can be meant. How the digits are laid out is a
`DecimalStyle`.
-/

set_option autoImplicit false

namespace Transact.Number

open Transact.Text

/-- Which of two equally near decimals is taken. -/
inductive Tie where
  /-- the one whose last digit is even -/
  | toEven
  /-- the larger one -/
  | up
deriving DecidableEq

namespace Binary64

/-- The two sides of a comparison of `a · 10^k` with `b · 2^e`: the first factor goes to `a`, the
second to `b`. -/
def factors (k e : Int) : Nat × Nat :=
  (Nat.pow 10 k.toNat * Nat.pow 2 (-e).toNat, Nat.pow 2 e.toNat * Nat.pow 10 (-k).toNat)

/-- The multiple of `10^k` that stands for `x`, if one of its two neighbours on that grid reads back
as `x`. Measured in quarters of the last place, `x` is `4 · significand`, the half-way points to its
neighbours are two quarters off (one, below a power of two), and they read back as `x` when its
significand is even. -/
def onGrid? (tie : Tie) (x : Binary64) (k : Int) : Option Nat :=
  let (p, u) := factors k (x.exponent - 2)
  let value := 4 * x.significand * u
  let below := if x.significand = leastFull ∧ -1074 < x.exponent then 1 else 2
  let least := (4 * x.significand - below) * u
  let greatest := (4 * x.significand + 2) * u
  let even := x.significand % 2 == 0
  let c := value / p
  let low := least < c * p || (even && least == c * p)
  let high := (c + 1) * p < greatest || (even && (c + 1) * p == greatest)
  let down := value - c * p
  let rise := (c + 1) * p - value
  match low, high with
  | false, false => none
  | true, false => some c
  | false, true => some (c + 1)
  | true, true =>
    if down < rise then some c
    else if rise < down then some (c + 1)
    else
      match tie with
      | .up => some (c + 1)
      | .toEven => if c % 2 = 0 then some c else some (c + 1)

/-- The first grid at or below `10^k` on which `x` has a decimal, with `steps` more grids to try. -/
def search (tie : Tie) (x : Binary64) : Nat → Int → Nat × Int
  | 0, k => (0, k)
  | steps + 1, k =>
    match onGrid? tie x k with
    | some c => (c, k)
    | none => search tie x steps (k - 1)

/-- Coefficient and exponent of the shortest decimal of a number that is not zero. Seventeen digits
always suffice, and the search starts at most three grids above the first of them. -/
def shortest (tie : Tie) (x : Binary64) : Nat × Int :=
  search tie x 24 (((x.significand.log2 : Int) + x.exponent) * 30103 / 100000 + 2)

end Binary64

/-! ## Layout -/

/-- How the digits of a number are laid out. -/
structure DecimalStyle where
  /-- the choice between two equally near decimals -/
  tie : Tie
  /-- the exponents of the leading digit at which no exponent is written -/
  positional : Int → Bool
  /-- a number without a fraction ends in `.0` -/
  point : Bool

namespace DecimalStyle

/-- `n` zeros. -/
def zeros (n : Nat) : List Char := List.replicate n '0'

/-- The digits `ds` followed by `10^k`, without an exponent. -/
def positionalText (style : DecimalStyle) (ds : List Char) (k : Int) : List Char :=
  let whole := ds.length + k
  if 0 ≤ k then ds ++ zeros k.toNat ++ (if style.point then ['.', '0'] else [])
  else if 0 < whole then ds.take whole.toNat ++ ['.'] ++ ds.drop whole.toNat
  else ['0', '.'] ++ zeros (-whole).toNat ++ ds

/-- The digits `ds` with the point after the first of them, and the exponent of that digit. -/
def scientificText (ds : List Char) (lead : Int) : List Char :=
  let fraction := if ds.length ≤ 1 then [] else '.' :: ds.drop 1
  ds.take 1 ++ fraction ++ ['e', if lead < 0 then '-' else '+'] ++ digits lead.natAbs

/-- The text of a double. -/
def render (style : DecimalStyle) (x : Binary64) : String :=
  let body : List Char :=
    if x.isZero then (if style.point then ['0', '.', '0'] else ['0'])
    else
      let (c, k) := x.shortest style.tie
      let ds := digits c
      let lead := ds.length + k - 1
      if style.positional lead then style.positionalText ds k else scientificText ds lead
  String.ofList (if x.negative then '-' :: body else body)

end DecimalStyle

end Transact.Number
