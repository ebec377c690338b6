import MediaGraph.Json
import MediaGraph.Number.Layout

/-!
# Numbers of a document

A number without a point and a power of ten is a whole number where 64 bits can hold it, as a
signed or as an unsigned number; minus zero is not whole, because a whole number has no such
sign. Every other number is a floating-point number. It is read in two roundings: the digits in
front that fit into 64 bits make a whole number, which is rounded, and that is scaled by one power
of ten, which is rounded again. Numbers beyond the range are refused.

## Main definitions

* `MediaGraph.Json.Number` — a number that was read; `Json.number?` reads one.
* `MediaGraph.Json.ofFloat`, `Json.ofInt` — the way numbers are written.
-/

set_option autoImplicit false

namespace MediaGraph.Json

/-- A number of a document. -/
inductive Number where
  /-- A whole number. -/
  | whole (i : Int)
  /-- A floating-point number. -/
  | float (x : Binary64)
  deriving DecidableEq

/-- A significand of at most 64 bits, a power of ten, and whether further digits are passed
over. -/
structure Digits where
  /-- The digits that were taken. -/
  significand : Nat
  /-- The power of ten that they are worth. -/
  exponent : Int
  /-- Whether the significand is full. -/
  full : Bool

/-- Takes a digit before the point; one that does not fit makes the number ten times larger. -/
def Digits.takeWhole (s : Digits) (c : Char) : Digits :=
  let next := 10 * s.significand + (c.toNat - '0'.toNat)
  if !s.full && next ≤ Width.max64 then { s with significand := next }
  else { s with exponent := s.exponent + 1, full := true }

/-- Takes a digit behind the point; one that does not fit is passed over. -/
def Digits.takeFraction (s : Digits) (c : Char) : Digits :=
  let next := 10 * s.significand + (c.toNat - '0'.toNat)
  if !s.full && next ≤ Width.max64 then
    { s with significand := next, exponent := s.exponent - 1 }
  else { s with full := true }

/-- The digits of a written number. -/
def digitsOf (n : Numeral) : Digits :=
  let whole := n.whole.foldl Digits.takeWhole ⟨0, 0, false⟩
  n.fraction.foldl Digits.takeFraction { whole with full := false }

/-- The largest power of ten that a number is scaled by at once. -/
def largestScale : Nat := 308

/-- The floating-point number nearest to `10 ^ k`. -/
def powerOfTen (k : Nat) : Magnitude :=
  (BinaryFormat.double.round (Nat.pow 10 k) 1).getD ⟨0, 0⟩

/-- The number `x / y`, rounded. -/
def divide (x y : Magnitude) : Magnitude :=
  (BinaryFormat.double.round (x.num * y.den) (x.den * y.num)).getD ⟨0, 0⟩

/-- Division by large powers of ten, one after the other, until what is left of the exponent is in
reach or the number is zero. At most `steps` divisions are made. -/
def divideOut : Nat → Magnitude → Nat → Magnitude
  | 0, x, k => divide x (powerOfTen (min k largestScale))
  | steps + 1, x, k =>
    if k ≤ largestScale then divide x (powerOfTen k)
    else if x.significand = 0 then x
    else divideOut steps (divide x (powerOfTen largestScale)) (k - largestScale)

/-- The number `x · 10 ^ k`, unless it is beyond the range. Four divisions bring every number to
zero. -/
def scale (x : Magnitude) (k : Int) : Option Magnitude :=
  if k < 0 then some (divideOut 4 x k.natAbs)
  else if x.significand = 0 then some x
  else if largestScale < k.natAbs then none
  else
    let p := powerOfTen k.natAbs
    BinaryFormat.double.round (x.num * p.num) (x.den * p.den)

/-- The largest power of ten that is taken at its value; of a larger one only the sign counts. -/
def largestPower : Nat := 2147483647

/-- The floating-point number that a written number stands for, unless it is beyond the range. -/
def float? (n : Numeral) : Option Binary64 :=
  let ds := digitsOf n
  let written := n.exponent.getD 0
  if largestPower < written.natAbs then
    if ds.significand ≠ 0 ∧ 0 < written then none else some (.zero n.negative)
  else
    let x := (BinaryFormat.double.round ds.significand 1).getD ⟨0, 0⟩
    (scale x (ds.exponent + written)).map (.ofMagnitude n.negative)

/-- The number that a written number stands for, unless it is beyond the range. -/
def number? (n : Numeral) : Option Number :=
  let v := Numeral.valueOfDigits n.whole
  if n.fraction = [] ∧ n.exponent = none then
    if !n.negative && v ≤ Width.max64 then some (.whole v)
    else if n.negative && 0 < v && Width.minSigned64 ≤ -v then some (.whole (-v))
    else (float? n).map .float
  else (float? n).map .float

/-- Floating-point numbers have the point in its place from `0.00001` up to sixteen digits before
it, with a zero behind the point of a whole number. Of two equally near decimals the one with an
even last digit is written. -/
def floatLayout : Layout :=
  ⟨fun places => decide (-4 ≤ places ∧ places ≤ 16), ['0'], .toEven⟩

/-- The way a floating-point number is written. There is none for what is no number and for the
infinities. -/
def ofFloat (x : Binary64) : Json :=
  match x.form with
  | .finite negative size => .number (floatLayout.writeShortest negative size)
  | _ => .null

/-- The way a whole number is written. -/
def ofInt (i : Int) : Json := .number (.ofInt i)

end MediaGraph.Json
