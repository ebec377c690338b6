import MediaGraph.Error
import MediaGraph.Number.Layout

/-!
# Values of filter arguments

An argument of a filter is a truth value, a whole number of 64 bits, a floating-point number, a
text, or a list of such values. In the expression it is text: truth values are `1` and `0`,
floating-point numbers have the shortest digits that read back with the point always in its
place, and the entries of a list stand between bars.

## Main definitions

* `MediaGraph.Value` — the values; `Value.render` is the text of each.
* `MediaGraph.Value.typeName` — the name of the type of a value.
-/

set_option autoImplicit false

namespace MediaGraph

/-- A value of an argument. -/
inductive Value where
  /-- A truth value. -/
  | bool (b : Bool)
  /-- A whole number. -/
  | int (i : Int64)
  /-- A floating-point number. -/
  | float (x : Binary64)
  /-- A text. -/
  | text (s : String)
  /-- A list of values. -/
  | list (items : List Value)
  deriving Inhabited

namespace Value

/-- Numbers in arguments never have a power of ten, and a whole number has no point. Of two
equally near decimals the larger one in size is written. -/
def numberLayout : Layout := ⟨fun _ => true, [], .awayFromZero⟩

/-- The text of a floating-point number in an argument. -/
def floatText (x : Binary64) : String :=
  match x.form with
  | .nan => "NaN"
  | .infinite negative => if negative then "-inf" else "inf"
  | .finite negative size =>
    String.ofList (numberLayout.writeShortest negative size).text

/-- The name of the type of a value. -/
def typeName : Value → String
  | .bool _ => "bool"
  | .int _ => "integer"
  | .float _ => "float"
  | .text _ => "string"
  | .list _ => "list"

mutual

/-- The text of a value in the expression, before any escaping. -/
def render : Value → String
  | .bool b => if b then "1" else "0"
  | .int i => toString i.toInt
  | .float x => floatText x
  | .text s => s
  | .list items => "|".intercalate (renderAll items)

/-- The texts of the entries of a list. -/
def renderAll : List Value → List String
  | [] => []
  | v :: rest => v.render :: renderAll rest

end

/-- The texts of the entries are those of the values, one by one. -/
theorem renderAll_eq_map (items : List Value) : renderAll items = items.map render := by
  induction items with
  | nil => rfl
  | cons v rest ih => rw [renderAll, ih, List.map_cons]

end Value

end MediaGraph
