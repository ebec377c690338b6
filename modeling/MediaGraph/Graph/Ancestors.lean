import MediaGraph.Graph

/-!
# Ancestors

What has to be written for some streams are the nodes behind them: those they come from, and the
nodes that these read from, and so on.

## Main definitions

* `MediaGraph.Graph.visit` — the search, from a list of nodes still to be looked at.
* `MediaGraph.Graph.ancestors` — all nodes behind a list of nodes, by number.
-/

set_option autoImplicit false

namespace MediaGraph.Graph

/-- Adds to `found` the nodes in `todo` and all nodes behind them. Every round finds a node that
was not found before, so as many rounds are enough as the graph has nodes. -/
def visit (g : Graph) : Nat → List Nat → SortedMap Nat Node → Except Fault (SortedMap Nat Node)
  | 0, todo, found =>
    match todo.dropWhile found.contains with
    | [] => .ok found
    | id :: _ => .error (.unknownNode id)
  | rounds + 1, todo, found =>
    match todo.dropWhile found.contains with
    | [] => .ok found
    | id :: rest =>
      match g.node? id with
      | none => .error (.unknownNode id)
      | some node => g.visit rounds (node.feeders ++ rest) (found.insert id node)

/-- The nodes in `seeds` and all nodes behind them, by number. -/
def ancestors (g : Graph) (seeds : List Nat) : Except Fault (SortedMap Nat Node) :=
  g.visit g.nodes.size seeds ∅

end MediaGraph.Graph
