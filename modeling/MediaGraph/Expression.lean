import MediaGraph.Expression.Labelling
import MediaGraph.Expression.Rendering
import MediaGraph.Graph.Ancestors
import MediaGraph.Schedule

/-!
# Compiling a graph

Compiling writes the part of a graph that some streams, its terminals, come from as one text for
a media engine. The graph is not changed by it, and the same construction always gives the same
text.

## Main definitions

* `MediaGraph.Expression` — the text, the labels of the terminals and the number of nodes.
* `Graph.sortedAncestors` — the nodes to be written, in order.
* `Graph.write` — the expression of nodes in a given order.
* `Graph.compile` — the expression of a list of terminals.
-/

set_option autoImplicit false

namespace MediaGraph

/-- A compiled graph. -/
structure Expression where
  /-- The text for the media engine. -/
  text : String
  /-- The labels of the terminals, in the order of the terminals. -/
  outputs : List Label
  /-- The number of nodes in the text. -/
  nodeCount : Nat
  deriving DecidableEq

/-- A fault as an error. -/
def Fault.lift {α : Type} : Except Fault α → Except Error α
  | .ok a => .ok a
  | .error f => .error (.internal f)

namespace Graph

/-- The nodes in `seeds` and all nodes behind them, each after those that it reads from. -/
def sortedAncestors (g : Graph) (seeds : List Nat) : Except Error (List Node) := do
  let found ← Fault.lift (g.ancestors seeds)
  if found.isEmpty then
    throw .emptyGraph
  let plan : Plan := SortedMap.ofList (found.toList.map fun e => (e.1, e.2.feeders))
  let order ← Fault.lift plan.order
  return order.filterMap found.find?

/-- Each node with the labels of its inputs and outputs. -/
def labelChains (labelling : Labelling) : List Node → Except Error (List Expression.Chain)
  | [] => .ok []
  | node :: rest => do
    let inputs ← node.inputs.mapM labelling.labelOf
    let chains ← labelChains labelling rest
    return ⟨inputs, node, labelling.outputs node.id⟩ :: chains

/-- Refuses a list of terminals that is empty or holds a stream of another graph. -/
def checkTerminals (g : Graph) (terminals : List Stream) : Except Error Unit :=
  if terminals.isEmpty then .error .emptyGraph
  else if terminals.all fun t => t.graph == g.id then .ok ()
  else .error .foreignStream

/-- The expression of nodes in the given order, with their labels and those of `terminals`. -/
def write (g : Graph) (nodes : List Node) (terminals : List Endpoint) (settings : Settings) :
    Report Expression := do
  let labelling ← Labelling.assign g nodes terminals settings
  let chains ← Report.check (labelChains labelling nodes)
  let text := String.ofList (Expression.renderAll settings.escape chains)
  let outputs ← Report.check (terminals.mapM labelling.labelOf)
  Report.emit (.compiled nodes.length text.utf8ByteSize)
  return ⟨text, outputs, nodes.length⟩

/-- The expression of the part of the graph behind `terminals`. -/
def compile (g : Graph) (terminals : List Stream) (settings : Settings) : Report Expression := do
  Report.emit (.compiling terminals.length)
  Report.check settings.validate
  Report.check (g.checkTerminals terminals)
  let endpoints := terminals.map Stream.endpoint
  let nodes ← Report.check (g.sortedAncestors (endpoints.filterMap Endpoint.node?))
  g.write nodes endpoints settings

end Graph

end MediaGraph
