import MediaGraph.Number.Shortest

/-!
# Layouts of decimal numbers

The same digits are written in more than one way: with the point in its place however many zeros
that takes, or with a power of ten. A layout fixes the choice.

## Main definitions

* `MediaGraph.Layout` — from where to where the point stands in its place, whether a whole
  number gets the digit `0` behind a point, and which of two equally near decimals is written;
  `Layout.write` applies it to a decimal, `Layout.writeShortest` to the shortest of a number.
-/

set_option autoImplicit false

namespace MediaGraph

/-- How a decimal number is written. -/
structure Layout where
  /-- Whether to write the point in its place, by the number of digits before it. A number below
  one tenth has a negative number of them, one for each zero behind the point. -/
  positional : Int → Bool
  /-- The digits behind the point of a whole number. -/
  wholeFraction : List Char
  /-- Which of two shortest decimals is written if the number is halfway between them. -/
  tie : Tie

namespace Layout

/-- The digits `ds` with the point behind the first `places` of them. -/
def writePositional (l : Layout) (negative : Bool) (ds : List Char) (places : Int) : Numeral :=
  let before := (ds ++ List.replicate (places.toNat - ds.length) '0').take places.toNat
  let after := List.replicate (-places).toNat '0' ++ ds.drop places.toNat
  ⟨negative, if before.isEmpty then ['0'] else before,
    if after.isEmpty then l.wholeFraction else after, none⟩

/-- The digits `ds` with the point behind the first of them and the power of ten that makes up
for it. -/
def writeScientific (negative : Bool) (ds : List Char) (places : Int) : Numeral :=
  ⟨negative, ds.take 1, ds.drop 1, some (places - 1)⟩

/-- A decimal number in the layout `l`. -/
def write (l : Layout) (negative : Bool) (d : Decimal) : Numeral :=
  let ds := Numeral.digitsOf d.digits
  let places := (ds.length : Int) + d.exponent
  if l.positional places then l.writePositional negative ds places
  else writeScientific negative ds places

/-- The shortest decimal of a number in the layout `l`. -/
def writeShortest (l : Layout) (negative : Bool) (x : Magnitude) : Numeral :=
  l.write negative (x.shortest l.tie)

end Layout

end MediaGraph
