/-!
# Widths of whole numbers

Some numbers of a graph are kept in 32 bits and some in 64, and a number that does not fit is
refused where it is given. Here are the bounds.

## Main definitions

* `MediaGraph.Width.max32`, `max64` — the largest numbers without a sign.
* `MediaGraph.Width.minSigned64`, `maxSigned64` — the smallest and the largest number with one.
-/

set_option autoImplicit false

namespace MediaGraph.Width

/-- The largest number of 32 bits. -/
def max32 : Nat := 4294967295

/-- The largest number of 64 bits. -/
def max64 : Nat := 18446744073709551615

/-- The smallest number of 64 bits with a sign. -/
def minSigned64 : Int := -9223372036854775808

/-- The largest number of 64 bits with a sign. -/
def maxSigned64 : Int := 9223372036854775807

/-- Whether a number with a sign has 64 bits. -/
def isSigned64 (i : Int) : Bool := minSigned64 ≤ i && i ≤ maxSigned64

end MediaGraph.Width
