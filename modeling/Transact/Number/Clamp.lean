/-!
# Clamping to the 64-bit range

Integer literals are 64 bits wide. An operation that would leave the range ends at its nearer end.
-/

set_option autoImplicit false

namespace Transact.Number

/-- The least 64-bit integer. -/
def minInt64 : Int := -9223372036854775808

/-- The greatest 64-bit integer. -/
def maxInt64 : Int := 9223372036854775807

/-- `i` fits in 64 bits. -/
def fitsInt64 (i : Int) : Bool := minInt64 ≤ i && i ≤ maxInt64

/-- The 64-bit integer nearest to `i`. -/
def clamp (i : Int) : Int64 := Int64.ofInt (max minInt64 (min maxInt64 i))

/-- The sum, or the end of the range that it would pass. -/
def saturatingAdd (a b : Int64) : Int64 := clamp (a.toInt + b.toInt)

end Transact.Number
