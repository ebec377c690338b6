import MediaGraph.Description
import MediaGraph.Node.Document

/-!
# Descriptions in documents

Every field has a default but the name and the filter of a node. A field that does not exist is
refused.

## Main definitions

* `Description.decoder`, `NodeEntry.decoder`, `OutputEntry.decoder` — reading a description and
  its parts.
* `Description.toJson`, `NodeEntry.toJson`, `OutputEntry.toJson` — writing them.
* `Description.parse` — the description in a document.
-/

set_option autoImplicit false

namespace MediaGraph.Description

open Json (Decoder Problem)

/-- The fields of an output read so far. -/
structure OutputEntry.Fields where
  /-- The position of the pad. -/
  pad : Option Nat := none
  /-- The label. -/
  label : Option (Option String) := none

/-- Reads one field of an output. -/
def OutputEntry.Fields.read (depth : Nat) (f : OutputEntry.Fields) (name : String) (j : Json) :
    Except Problem OutputEntry.Fields :=
  match name with
  | "pad" => do
    let given ← Decoder.once name f.pad (numberDecoder depth j)
    return { f with pad := given }
  | "label" => do
    let given ← Decoder.once name f.label (Decoder.text.optional depth j)
    return { f with label := given }
  | _ => .error (.unknownField name)

/-- Reads an output. -/
def OutputEntry.decoder : Decoder OutputEntry :=
  .record ["pad", "label"] {} OutputEntry.Fields.read fun f =>
    .ok ⟨f.pad.getD 0, f.label.join⟩

/-- The tree of an output. -/
def OutputEntry.toJson (o : OutputEntry) : Json :=
  .ofFields [("pad", .ofInt o.pad), ("label", .ofOption .ofText o.label)]

/-- The fields of a node read so far. -/
structure NodeEntry.Fields where
  /-- The name of the node. -/
  id : Option String := none
  /-- The name of the filter. -/
  filter : Option String := none
  /-- What the node reads. -/
  inputs : Option (List String) := none
  /-- The number of inputs. -/
  arity : Option (Option Nat) := none
  /-- The arguments by position. -/
  args : Option (List Value) := none
  /-- The options. -/
  options : Option (SortedMap String Value) := none
  /-- The outputs. -/
  outputs : Option (List OutputEntry) := none

/-- Reads one field of a node. -/
def NodeEntry.Fields.read (depth : Nat) (f : NodeEntry.Fields) (name : String) (j : Json) :
    Except Problem NodeEntry.Fields :=
  match name with
  | "id" => do
    let given ← Decoder.once name f.id (Decoder.text depth j)
    return { f with id := given }
  | "filter" => do
    let given ← Decoder.once name f.filter (Decoder.text depth j)
    return { f with filter := given }
  | "inputs" => do
    let given ← Decoder.once name f.inputs (Decoder.text.items depth j)
    return { f with inputs := given }
  | "arity" => do
    let given ← Decoder.once name f.arity ((Decoder.natural Width.max64).optional depth j)
    return { f with arity := given }
  | "args" => do
    let given ← Decoder.once name f.args (Value.decoder.items depth j)
    return { f with args := given }
  | "options" => do
    let given ← Decoder.once name f.options (Value.decoder.entries depth j)
    return { f with options := given }
  | "outputs" => do
    let given ← Decoder.once name f.outputs (OutputEntry.decoder.items depth j)
    return { f with outputs := given }
  | _ => .error (.unknownField name)

/-- The node with the given fields; the name and the filter must be among them. -/
def NodeEntry.ofFields (f : NodeEntry.Fields) : Except Problem NodeEntry := do
  let id ← Decoder.needed "id" f.id
  let filter ← Decoder.needed "filter" f.filter
  return ⟨id, filter, f.inputs.getD [], f.arity.join, f.args.getD [], f.options.getD ∅,
    f.outputs.getD []⟩

/-- Reads a node. -/
def NodeEntry.decoder : Decoder NodeEntry :=
  .record ["id", "filter", "inputs", "arity", "args", "options", "outputs"] {}
    NodeEntry.Fields.read NodeEntry.ofFields

/-- The tree of a node. -/
def NodeEntry.toJson (n : NodeEntry) : Json :=
  .ofFields [("id", .ofText n.id), ("filter", .ofText n.filter),
    ("inputs", .ofList (n.inputs.map .ofText)),
    ("arity", .ofOption (fun (count : Nat) => .ofInt count) n.arity),
    ("args", .ofList (n.args.map Value.toJson)), ("options", Arguments.optionsToJson n.options),
    ("outputs", .ofList (n.outputs.map OutputEntry.toJson))]

/-- The fields of a description read so far. -/
structure Fields where
  /-- The labels of the sources. -/
  sources : Option (List Label) := none
  /-- The nodes. -/
  nodes : Option (List NodeEntry) := none
  /-- What the graph ends in. -/
  outputs : Option (List String) := none

/-- Reads one field of a description. -/
def Fields.read (depth : Nat) (f : Fields) (name : String) (j : Json) : Except Problem Fields :=
  match name with
  | "sources" => do
    let given ← Decoder.once name f.sources (Decoder.label.items depth j)
    return { f with sources := given }
  | "nodes" => do
    let given ← Decoder.once name f.nodes (NodeEntry.decoder.items depth j)
    return { f with nodes := given }
  | "outputs" => do
    let given ← Decoder.once name f.outputs (Decoder.text.items depth j)
    return { f with outputs := given }
  | _ => .error (.unknownField name)

/-- Reads a description. -/
def decoder : Decoder Description :=
  .record ["sources", "nodes", "outputs"] {} Fields.read fun f =>
    .ok ⟨f.sources.getD [], f.nodes.getD [], f.outputs.getD []⟩

/-- The tree of a description. -/
def toJson (d : Description) : Json :=
  .ofFields [("sources", .ofList (d.sources.map Label.toJson)),
    ("nodes", .ofList (d.nodes.map NodeEntry.toJson)),
    ("outputs", .ofList (d.outputs.map .ofText))]

/-- The description in a document. -/
def parse (document : List Json.Symbol) : Except Error Description :=
  match Json.decode decoder document with
  | .ok d => .ok d
  | .error problem => .error (.document .graphDescription problem)

end MediaGraph.Description
