import MediaGraph.Arguments.Document
import MediaGraph.Node

/-!
# Labels, numbers of nodes and pads, and arities in documents

Numbers of nodes and pads are plain whole numbers of 32 bits. The arity of any number of inputs is
a word, that of an exact number an object with the number.

## Main definitions

* `MediaGraph.Label.toJson`, `Arity.toJson` — writing labels and arities.
* `MediaGraph.numberDecoder`, `Arity.decoder` — reading numbers and arities.
-/

set_option autoImplicit false

namespace MediaGraph

open Json (Decoder Problem)

/-- Reads the number of a node or a pad. -/
def numberDecoder : Decoder Nat := .natural Width.max32

/-- The tree of a label. -/
def Label.toJson (l : Label) : Json := .ofText l.text

namespace Arity

/-- Reads what stands behind the word for a kind of arity. -/
def readVariant (depth : Nat) (word : String) (j : Json) : Except Problem Arity :=
  match word with
  | "Exact" => (Decoder.natural Width.max64 depth j).map .exact
  | "Variable" =>
    match j with
    | .null => .ok .any
    | _ => .error .malformed
  | _ => .error .malformed

/-- Reads an arity. -/
def decoder : Decoder Arity
  | _, .string body => do
    let word ← Json.bodyText body
    if word = "Variable" then return .any else throw .malformed
  | depth + 1, .object [(body, j)] closed => do
    let word ← Json.bodyText body
    let arity ← readVariant depth word j
    if closed then return arity else throw .malformed
  | _, _ => .error .malformed

/-- The tree of an arity. -/
def toJson : Arity → Json
  | .exact n => .ofFields [("Exact", .ofInt n)]
  | .any => .ofText "Variable"

end Arity

end MediaGraph
