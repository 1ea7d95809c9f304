import Transact.Number.Binary64

/-!
# Scaling by powers of ten

Products and quotients of doubles are rounded to nearest. A decimal can be read in this arithmetic:
its digits and the power of ten are rounded to doubles first, and then their product or quotient is
rounded again. Two roundings do not always give the double that one would.
-/

set_option autoImplicit false

namespace Transact.Number.Binary64

/-- The magnitude as a fraction. -/
def ratio (x : Binary64) : Nat × Nat :=
  (x.significand * Nat.pow 2 x.exponent.toNat, Nat.pow 2 (-x.exponent).toNat)

/-- The double nearest to the product of the magnitudes, or `none` when it is beyond the finite
ones. -/
def mul? (x y : Binary64) : Option Binary64 :=
  ofRatio? false (x.ratio.1 * y.ratio.1) (x.ratio.2 * y.ratio.2)

/-- The double nearest to the quotient of the magnitudes; `0` for one beyond the finite doubles,
which no quotient by a number from one on is. -/
def div (x y : Binary64) : Binary64 :=
  (ofRatio? false (x.ratio.1 * y.ratio.2) (x.ratio.2 * y.ratio.1)).getD default

/-- The greatest exponent of a power of ten among the finite doubles. -/
def maxTenPower : Nat := 308

/-- The double nearest to `10^k`, for `k` up to the greatest exponent. -/
def tenPower (k : Nat) : Binary64 := (ofRatio? false (Nat.pow 10 k) 1).getD default

/-- The magnitude divided by the greatest power of ten so many times, or fewer when it vanishes
before. -/
def lowered : Nat → Binary64 → Binary64
  | 0, x => x
  | steps + 1, x => if x.isZero then x else lowered steps (x.div (tenPower maxTenPower))

/-- `n · 10^e` in the arithmetic of doubles, or `none` when it is beyond the finite ones. A power of
ten that is too large is refused, whatever it is multiplied by but zero. One that is too small is
reached in steps. -/
def scaled? (n : Nat) (e : Int) : Option Binary64 :=
  let x := ofInt n
  if x.isZero then some x
  else if maxTenPower < e then none
  else if 0 ≤ e then x.mul? (tenPower e.toNat)
  else
    let k := (-e).toNat
    let steps := (k - 1) / maxTenPower
    some ((x.lowered steps).div (tenPower (k - maxTenPower * steps)))

end Transact.Number.Binary64
