import MediaGraph.Expression.Escaping
import MediaGraph.Node

/-!
# The text of a node

A node is written as the labels of its inputs, the filter with its arguments, and the labels of
its outputs. The arguments follow the name of the filter behind an equals sign and stand between
colons: first those by position, then the options by ascending key.

## Main definitions

* `MediaGraph.Expression.parameters` — the arguments, one text each.
* `MediaGraph.Expression.specification` — a filter with its arguments.
* `MediaGraph.Expression.Chain` — a node with the labels of its inputs and outputs.
* `Chain.render`, `renderAll` — the text of one such node, and of all of them.
-/

set_option autoImplicit false

namespace MediaGraph.Expression

/-- The text of one option; without a value an option is left out. -/
def option? (on : Bool) (key : String) (v : Value) : Option (List Char) :=
  let text := v.render.toList
  if text = [] then none
  else some (escapeIf on argumentSpecial key.toList ++ '=' :: escapeIf on argumentSpecial text)

/-- The texts of the arguments, those by position first. -/
def parameters (on : Bool) (a : Arguments) : List (List Char) :=
  a.positional.map (fun v => escapeIf on argumentSpecial v.render.toList) ++
    a.options.toList.filterMap fun e => option? on e.1 e.2

/-- The text of a filter with its arguments. -/
def specification (on : Bool) (filter : String) (a : Arguments) : List Char :=
  let params := parameters on a
  escapeIf on graphSpecial <|
    if params = [] then filter.toList
    else filter.toList ++ '=' :: List.intercalate [':'] params

/-- The text of a label in brackets. -/
def bracket (l : Label) : List Char := '[' :: l.text.toList ++ [']']

/-- A node with the labels of its inputs and outputs. -/
structure Chain where
  /-- The labels of the inputs, in order. -/
  inputs : List Label
  /-- The node. -/
  node : Node
  /-- The labels of the output pads, in order. -/
  outputs : List Label

/-- The text of a node. -/
def Chain.render (on : Bool) (c : Chain) : List Char :=
  c.inputs.flatMap bracket ++ specification on c.node.filter c.node.arguments ++
    c.outputs.flatMap bracket

/-- The text of all nodes, between semicolons. -/
def renderAll (on : Bool) (chains : List Chain) : List Char :=
  List.intercalate [';'] (chains.map (Chain.render on))

end MediaGraph.Expression
