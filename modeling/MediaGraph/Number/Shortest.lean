import MediaGraph.Number.Binary64

/-!
# The shortest decimal of a floating-point number

Every finite number of a binary format is the rounded value of a whole interval of real numbers.
Its shortest decimal is the multiple of a power of ten inside that interval for the largest power
that has one there, and of several such multiples the nearest to the number. Two may be equally
near: then a tie rule chooses. No decimal with fewer digits reads back as the number.

## Main definitions

* `MediaGraph.Magnitude.roundsHere` — whether a decimal lies in the interval of a number.
* `MediaGraph.Magnitude.gridPoint?` — the multiple of a power of ten in that interval.
* `MediaGraph.Magnitude.shortest` — the shortest decimal.
-/

set_option autoImplicit false

namespace MediaGraph.Magnitude

/-- Twice the distance to the neighbour below, in quarter units: below a power of two the format
has units of half the size, except under the least of them. -/
def quartersBelow (x : Magnitude) : Nat :=
  if x.significand = hiddenBit ∧ -1074 < x.exponent then 1 else 2

/-- A decimal `c · 10 ^ k`, in quarter units of `x`, as a ratio. -/
def quarters (x : Magnitude) (c : Nat) (k : Int) : Nat × Nat :=
  (c * Nat.pow 10 k.toNat * Nat.pow 2 (2 - x.exponent).toNat,
    Nat.pow 10 (-k).toNat * Nat.pow 2 (x.exponent - 2).toNat)

/-- Whether `c · 10 ^ k` rounds to `x`: it lies between the midpoints towards the two neighbours
of `x`. The midpoints themselves round to the even significand. -/
def roundsHere (x : Magnitude) (c : Nat) (k : Int) : Bool :=
  let (num, den) := x.quarters c k
  let low := (4 * x.significand - x.quartersBelow) * den
  let high := (4 * x.significand + 2) * den
  if x.significand % 2 = 0 then decide (low ≤ num ∧ num ≤ high)
  else decide (low < num ∧ num < high)

/-- The multiple of `10 ^ k` that rounds to `x` and is nearest to it, by the rule `t` if `x` is
halfway between two. Only the two multiples around `x` can be. -/
def gridPoint? (x : Magnitude) (t : Tie) (k : Int) : Option Nat :=
  let num := x.num * Nat.pow 10 (-k).toNat
  let den := x.den * Nat.pow 10 k.toNat
  let near := roundDiv t num den
  let far := if near = num / den then near + 1 else num / den
  if x.roundsHere near k then some near
  else if x.roundsHere far k then some far
  else none

/-- The first of the grids `10 ^ k`, `10 ^ (k - 1)`, … with a point that rounds to `x`. -/
def firstGrid (x : Magnitude) (t : Tie) : Nat → Int → Decimal
  | 0, k => ⟨x.num * Nat.pow 10 (-k).toNat / x.den, k⟩
  | steps + 1, k =>
    match x.gridPoint? t k with
    | some c => ⟨c, k⟩
    | none => firstGrid x t steps (k - 1)

/-- A power of ten above `x`. -/
def decimalBound (x : Magnitude) : Int :=
  let places : Int := (Nat.log2 x.significand : Int) + 1 + x.exponent
  if 0 ≤ places then places / 3 + 1 else places * 3 / 10 + 1

/-- The shortest decimal that rounds to `x`. The search starts above `x` and ends at the latest
where `x` itself is on the grid. -/
def shortest (x : Magnitude) (t : Tie) : Decimal :=
  if x.significand = 0 then ⟨0, 0⟩
  else x.firstGrid t (x.decimalBound - min x.exponent 0).toNat x.decimalBound

end MediaGraph.Magnitude
