import MediaGraph.Json.Printer
import MediaGraph.Json.Shape
import MediaGraph.Value

/-!
# Values in documents

A value has no tag in a document; its JSON kind is its type. A number is whole where a signed word
of 64 bits holds it, and a floating-point number otherwise. Objects and the word for nothing are no
values.

## Main definitions

* `MediaGraph.Value.ofJson?`, `Value.decoder` — reading a value.
* `MediaGraph.Value.toJson` — writing one.
-/

set_option autoImplicit false

namespace MediaGraph.Value

open Json (Decoder)

/-- A number of a document as a value. -/
def ofNumber : Json.Number → Value
  | .whole i => if Width.isSigned64 i then .int (Int64.ofInt i) else .float (.ofInt i)
  | .float x => .float x

mutual

/-- The value that a tree with at most so many levels stands for, if it stands for one. -/
def ofJson? : Nat → Json → Option Value
  | _, .bool b => some (.bool b)
  | _, .number n => (Json.number? n).map ofNumber
  | _, .string body => (Json.decodeBody body).map fun cs => .text (String.ofList cs)
  | depth + 1, .array items true => (ofItems? depth items).map .list
  | _, _ => none

/-- The values that all items stand for. -/
def ofItems? : Nat → List Json → Option (List Value)
  | _, [] => some []
  | depth, j :: rest => do
    let v ← ofJson? depth j
    let vs ← ofItems? depth rest
    return v :: vs

end

/-- Reads a value. -/
def decoder : Decoder Value := fun depth j => Json.orMalformed (ofJson? depth j)

mutual

/-- The tree of a value. -/
def toJson : Value → Json
  | .bool b => .bool b
  | .int i => .ofInt i.toInt
  | .float x => .ofFloat x
  | .text s => .ofText s
  | .list items => .array (toItems items) true

/-- The trees of values. -/
def toItems : List Value → List Json
  | [] => []
  | v :: rest => v.toJson :: toItems rest

end

end MediaGraph.Value
