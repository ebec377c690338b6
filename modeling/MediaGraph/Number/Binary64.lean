import MediaGraph.Number.Numeral

/-!
# Binary floating-point numbers of 64 bits

The numbers of the IEEE 754 format binary64, by their bits, with exact arithmetic on the natural
numbers behind every operation: a result is the exact ratio, rounded once to the nearest number
of the format, a tie going to the even significand. Nothing here depends on a processor, so
every value can be computed inside a proof.

## Main definitions

* `MediaGraph.Binary64` — a number by its bits; `Binary64.form` says what the bits mean.
* `MediaGraph.Tie` — where halves go; `roundDiv` is a quotient rounded to the nearest whole number.
* `MediaGraph.BinaryFormat` — a width and a range of exponents; `BinaryFormat.round` is rounding.
* `Binary64.ofRatio`, `ofInt`, `ofDecimal`, `read?` — the number nearest to a ratio, to a whole
  number, to a decimal number, and to a text.
* `Binary64.whole?` — the whole number that a finite number is, if it is one.
-/

set_option autoImplicit false

namespace MediaGraph

/-- A number that is not negative, as whole units of a power of two. -/
structure Magnitude where
  /-- The number of units. -/
  significand : Nat
  /-- The power of two of the unit. -/
  exponent : Int
  deriving DecidableEq

namespace Magnitude

/-- The numerator of the number as a ratio. -/
def num (x : Magnitude) : Nat := x.significand * Nat.pow 2 x.exponent.toNat

/-- The denominator of the number as a ratio. -/
def den (x : Magnitude) : Nat := Nat.pow 2 (-x.exponent).toNat

end Magnitude

/-- Which of two neighbours stands for a number halfway between them. -/
inductive Tie where
  /-- The even one. -/
  | toEven
  /-- The one further from zero. -/
  | awayFromZero
  deriving DecidableEq, Repr

/-- The whole number that a tie between `q` and `q + 1` goes to. -/
def Tie.choose (t : Tie) (q : Nat) : Nat :=
  match t with
  | .toEven => q + q % 2
  | .awayFromZero => q + 1

/-- The whole number nearest to `num / den`, a half going where `t` says. -/
def roundDiv (t : Tie) (num den : Nat) : Nat :=
  let q := num / den
  let r := num % den
  if 2 * r < den then q else if den < 2 * r then q + 1 else t.choose q

/-- A binary floating-point format: the significands have at most `width` bits, and the units are
the powers of two from `least` to `greatest`. -/
structure BinaryFormat where
  /-- The number of bits of a significand. -/
  width : Nat
  /-- The exponent of the smallest unit. -/
  least : Int
  /-- The exponent of the largest unit. -/
  greatest : Int

namespace BinaryFormat

/-- Numbers of 64 bits. -/
def double : BinaryFormat := ⟨53, -1074, 971⟩

/-- Numbers of 32 bits. -/
def single : BinaryFormat := ⟨24, -149, 104⟩

/-- The exponent of the unit in which `num / den` has `width` bits before the point, or the least
exponent if that unit is too small for the format. -/
def unitExponent (f : BinaryFormat) (num den : Nat) : Int :=
  let spread : Int := (Nat.log2 num : Int) - (Nat.log2 den : Int)
  let guess := max f.least (spread - f.width)
  let units := num * Nat.pow 2 (-guess).toNat / (den * Nat.pow 2 guess.toNat)
  if Nat.pow 2 f.width ≤ units then guess + 1 else guess

/-- The number of the format nearest to `num / den`, or nothing if that is beyond its range. -/
def round (f : BinaryFormat) (num den : Nat) : Option Magnitude :=
  let e := f.unitExponent num den
  let m := roundDiv .toEven (num * Nat.pow 2 (-e).toNat) (den * Nat.pow 2 e.toNat)
  let x : Magnitude :=
    if m = Nat.pow 2 f.width then ⟨Nat.pow 2 (f.width - 1), e + 1⟩ else ⟨m, e⟩
  if f.greatest < x.exponent then none else some x

end BinaryFormat

/-- The highest bit of a full significand of 53 bits. The format leaves it out of the fraction. -/
def hiddenBit : Nat := 4503599627370496

/-- A floating-point number of 64 bits. -/
structure Binary64 where
  /-- Sign, biased exponent and fraction, from the highest bit to the lowest. -/
  bits : UInt64
  deriving DecidableEq

namespace Binary64

/-- What a pattern of bits stands for. -/
inductive Form where
  /-- No number. -/
  | nan
  /-- An infinity. -/
  | infinite (negative : Bool)
  /-- A number with its sign; zero has two. -/
  | finite (negative : Bool) (size : Magnitude)
  deriving DecidableEq

/-- The sign bit. -/
def signBit : Nat := 9223372036854775808

/-- Whether the sign bit is set. -/
def negative (x : Binary64) : Bool := decide (signBit ≤ x.bits.toNat)

/-- The meaning of the bits: the largest biased exponent is kept for infinities and for what is
no number, the smallest for the numbers below the smallest full significand. -/
def form (x : Binary64) : Form :=
  let biased : Nat := x.bits.toNat / hiddenBit % 2048
  let fraction : Nat := x.bits.toNat % hiddenBit
  if biased = 2047 then
    if fraction = 0 then .infinite x.negative else .nan
  else if biased = 0 then .finite x.negative ⟨fraction, -1074⟩
  else .finite x.negative ⟨fraction + hiddenBit, (biased : Int) - 1075⟩

/-- The number with the given sign bit, biased exponent and fraction. -/
def ofFields (negative : Bool) (biased fraction : Nat) : Binary64 :=
  ⟨UInt64.ofNat ((if negative then signBit else 0) + biased * hiddenBit + fraction)⟩

/-- What is no number. -/
def nan : Binary64 := ofFields false 2047 (hiddenBit / 2)

/-- An infinity. -/
def infinity (negative : Bool) : Binary64 := ofFields negative 2047 0

/-- A zero. -/
def zero (negative : Bool) : Binary64 := ofFields negative 0 0

/-- The number with the given sign and a magnitude of the format. -/
def ofMagnitude (negative : Bool) (x : Magnitude) : Binary64 :=
  if x.significand < hiddenBit then ofFields negative 0 x.significand
  else ofFields negative (x.exponent + 1075).toNat (x.significand - hiddenBit)

/-- A rounded magnitude with its sign; beyond the range stands an infinity. -/
def ofRounded (negative : Bool) : Option Magnitude → Binary64
  | none => infinity negative
  | some x => ofMagnitude negative x

/-- The number nearest to the ratio, beyond the range an infinity. -/
def ofRatio (negative : Bool) (num den : Nat) : Binary64 :=
  ofRounded negative (BinaryFormat.double.round num den)

/-- The number nearest to a whole number. -/
def ofInt (i : Int) : Binary64 := ofRatio (decide (i < 0)) i.natAbs 1

/-- The magnitude in the format `f` nearest to a decimal number. Powers of ten far outside every
format are not written out: beyond 400 digits before the point a number other than zero is too
large, and beyond 400 zeros after it too small, for any rounding to matter. -/
def roundDecimal (f : BinaryFormat) (d : Decimal) : Option Magnitude :=
  let places : Int := (Numeral.digitsOf d.digits).length + d.exponent
  if d.digits = 0 ∨ places < -400 then some ⟨0, f.least⟩
  else if 400 < places then none
  else f.round (d.digits * Nat.pow 10 d.exponent.toNat) (Nat.pow 10 (-d.exponent).toNat)

/-- The number nearest to a decimal number. -/
def ofDecimal (negative : Bool) (d : Decimal) : Binary64 :=
  ofRounded negative (roundDecimal .double d)

/-- The number of 32 bits nearest to a decimal number; each is also a number of 64 bits. -/
def ofDecimalSingle (negative : Bool) (d : Decimal) : Binary64 :=
  match roundDecimal .single d with
  | none => infinity negative
  | some x => ofRatio negative x.num x.den

/-- Reads a text without a sign: `inf`, `infinity` or `nan` in any case of the letters, or a
decimal number, which `nearest` turns into a number. -/
def readUnsigned? (nearest : Bool → Decimal → Binary64) (negative : Bool) (cs : List Char) :
    Option Binary64 :=
  let lower := String.ofList (cs.map Char.toLower)
  if lower = "inf" ∨ lower = "infinity" then some (infinity negative)
  else if lower = "nan" then some nan
  else (Numeral.decimal? cs).map (nearest negative)

/-- Reads a text with a sign or none. -/
def readWith? (nearest : Bool → Decimal → Binary64) : List Char → Option Binary64
  | '-' :: cs => readUnsigned? nearest true cs
  | '+' :: cs => readUnsigned? nearest false cs
  | cs => readUnsigned? nearest false cs

/-- The number nearest to what a text says, if it says a number. -/
def read? (cs : List Char) : Option Binary64 := readWith? ofDecimal cs

/-- The number of 32 bits nearest to what a text says, if it says a number. -/
def readSingle? (cs : List Char) : Option Binary64 := readWith? ofDecimalSingle cs

/-- The whole number that `x` is, if it is finite and has no fraction. -/
def whole? (x : Binary64) : Option Int :=
  match x.form with
  | .finite negative size =>
    if size.num % size.den = 0 then
      let n : Int := (size.num / size.den : Nat)
      some (if negative then -n else n)
    else none
  | _ => none

end Binary64

end MediaGraph
