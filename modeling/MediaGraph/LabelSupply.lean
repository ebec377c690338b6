import MediaGraph.Error
import MediaGraph.Number.Width

/-!
# Assigned labels

Pads that were asked for without a label get one when a graph is compiled: a fixed stem and a
running number. Numbers whose label is in use are passed over, and no number is used twice.

## Main definitions

* `MediaGraph.LabelSupply` — a stem, the next number and the texts not to be used.
* `LabelSupply.reserve`, `LabelSupply.next` — keeping a label back, and the next free one.
-/

set_option autoImplicit false

namespace MediaGraph

/-- A supply of labels. -/
structure LabelSupply where
  /-- What stands in front of every number. -/
  stem : String
  /-- The number to be tried next. -/
  counter : Nat
  /-- The labels that are in use elsewhere. -/
  reserved : List String

namespace LabelSupply

/-- The number at which the supply ends; it is never used. -/
def limit : Nat := Width.max64

/-- The supply that starts to count at `first`. -/
def start (stem : String) (first : Nat) : LabelSupply := ⟨stem, first, []⟩

/-- The supply that never hands out `label`. -/
def reserve (s : LabelSupply) (label : Label) : LabelSupply :=
  { s with reserved := label.text :: s.reserved }

/-- The text with a number. -/
def candidate (s : LabelSupply) (number : Nat) : String := s.stem ++ toString number

/-- The label of the first number from `counter` on that is free, with the supply after it. A
number is used up also if its text cannot be a label. -/
def next (s : LabelSupply) : Except Error Label × LabelSupply :=
  if _h : limit ≤ s.counter then (.error (.internal .labelOverflow), s)
  else
    let text := s.candidate s.counter
    let after : LabelSupply := { s with counter := s.counter + 1 }
    if s.reserved.contains text then after.next
    else
      match Label.ofText text with
      | .ok label => (.ok label, after)
      | .error defect => (.error (.ofDefect text defect), after)
termination_by limit - s.counter
decreasing_by
  show limit - (s.counter + 1) < limit - s.counter
  omega

end LabelSupply

end MediaGraph
