import MediaGraph.Number.Width

/-!
# Written numbers

A number on paper is a sign, whole digits, digits after the point and sometimes a power of ten.
This module holds that written form, its text, and the readers for whole and for decimal numbers.
Only the digits `0` to `9` count as digits.

## Main definitions

* `MediaGraph.Numeral` — a written number; `Numeral.text` is its text.
* `MediaGraph.Decimal` — the value `digits · 10 ^ exponent`.
* `MediaGraph.Numeral.natural?`, `integer?`, `decimal?` — what a text says, if it says a number.
-/

set_option autoImplicit false

namespace MediaGraph

/-- A number that is not negative, as whole digits times a power of ten. -/
structure Decimal where
  /-- The digits, read as one whole number. -/
  digits : Nat
  /-- The power of ten. -/
  exponent : Int
  deriving DecidableEq

/-- A number as it is written: the digits before and after the point and the power of ten. -/
structure Numeral where
  /-- Whether a minus sign stands in front. -/
  negative : Bool
  /-- The digits before the point. -/
  whole : List Char
  /-- The digits after the point; without any there is no point. -/
  fraction : List Char
  /-- The power of ten, if one is written. -/
  exponent : Option Int
  deriving DecidableEq

namespace Numeral

/-- The number that a list of digits spells in base ten. -/
def valueOfDigits (cs : List Char) : Nat :=
  cs.foldl (fun n c => 10 * n + (c.toNat - '0'.toNat)) 0

/-- The digits of a number in base ten, without leading zeros. -/
def digitsOf (n : Nat) : List Char := Nat.toDigits 10 n

/-- The text of a power of ten: always with a sign. -/
def exponentText (e : Int) : List Char :=
  'e' :: (if e < 0 then '-' else '+') :: digitsOf e.natAbs

/-- The characters of a written number. -/
def text (n : Numeral) : List Char :=
  (if n.negative then ['-'] else []) ++ n.whole ++
    (if n.fraction.isEmpty then [] else '.' :: n.fraction) ++
    (match n.exponent with
      | none => []
      | some e => exponentText e)

/-- A whole number as a written one. -/
def ofInt (i : Int) : Numeral := ⟨decide (i < 0), digitsOf i.natAbs, [], none⟩

/-- The number spelt by one or more digits and nothing else. -/
def digits? (cs : List Char) : Option Nat :=
  if cs ≠ [] ∧ cs.all Char.isDigit then some (valueOfDigits cs) else none

/-- A whole number that is not negative: digits, after a plus sign or none. -/
def natural? : List Char → Option Nat
  | '+' :: cs => digits? cs
  | cs => digits? cs

/-- A whole number: digits, after a plus sign, a minus sign or none. -/
def integer? : List Char → Option Int
  | '-' :: cs => (digits? cs).map fun n => -n
  | cs => (natural? cs).map fun n => n

/-- A decimal number without a sign: digits with a point before, between or behind them or none,
and a power of ten after `e` or `E`. -/
def decimal? (cs : List Char) : Option Decimal :=
  let whole := cs.takeWhile Char.isDigit
  let afterWhole := cs.dropWhile Char.isDigit
  let afterPoint := match afterWhole with
    | '.' :: rest => rest
    | _ => []
  let fraction := afterPoint.takeWhile Char.isDigit
  let tail := match afterWhole with
    | '.' :: rest => rest.dropWhile Char.isDigit
    | rest => rest
  let scale := match tail with
    | [] => some 0
    | c :: rest => if c = 'e' ∨ c = 'E' then integer? rest else none
  if whole.isEmpty && fraction.isEmpty then none
  else scale.map fun e => ⟨valueOfDigits (whole ++ fraction), e - fraction.length⟩

end Numeral

end MediaGraph
