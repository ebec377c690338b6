import MediaGraph.Arguments
import MediaGraph.Value.Document

/-!
# Arguments in documents

## Main definitions

* `MediaGraph.Arguments.decoder` — reading arguments; fields of other names are passed over.
* `MediaGraph.Arguments.toJson` — writing them.
-/

set_option autoImplicit false

namespace MediaGraph

open Json (Decoder Problem)

namespace Arguments

/-- The tree of options, by ascending key. -/
def optionsToJson (options : SortedMap String Value) : Json :=
  .ofFields (options.toList.map fun e => (e.1, e.2.toJson))

/-- The fields read so far. -/
structure Fields where
  /-- The arguments by position. -/
  positional : Option (List Value) := none
  /-- The options. -/
  options : Option (SortedMap String Value) := none

/-- Reads one field. -/
def Fields.read (depth : Nat) (f : Fields) (name : String) (j : Json) : Except Problem Fields :=
  match name with
  | "positional" => do
    let given ← Decoder.once name f.positional (Decoder.items Value.decoder depth j)
    return { f with positional := given }
  | "options" => do
    let given ← Decoder.once name f.options (Decoder.entries Value.decoder depth j)
    return { f with options := given }
  | _ => do
    Decoder.anything depth j
    return f

/-- Reads arguments; what is not given is empty. -/
def decoder : Decoder Arguments :=
  .record ["positional", "options"] {} Fields.read fun f =>
    .ok ⟨f.positional.getD [], f.options.getD ∅⟩

/-- The tree of arguments. -/
def toJson (a : Arguments) : Json :=
  .ofFields [("positional", .ofList (a.positional.map Value.toJson)),
    ("options", optionsToJson a.options)]

end Arguments

end MediaGraph
