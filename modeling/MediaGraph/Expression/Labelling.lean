import MediaGraph.Graph
import MediaGraph.LabelSupply
import MediaGraph.Settings

/-!
# Labels of a compilation

Outputs are written by position, so a node whose highest pad asked for is `k` is written with
labels for all of its pads `0` to `k`. A pad that was asked for under a label has that one; the
others get labels from a supply that keeps back every label that occurs in the compilation.

## Main definitions

* `MediaGraph.Report` — work that reports events and can be refused on the way.
* `MediaGraph.Labelling` — the labels of the pads of every node to be written.
* `Labelling.assign` — the labelling of a list of nodes.
* `Labelling.labelOf` — the label of an endpoint.
-/

set_option autoImplicit false

namespace MediaGraph

/-- Work that reports events, the latest last, and can be refused on the way. -/
abbrev Report := EStateM Error (Array Event)

namespace Report

/-- Reports an event. -/
def emit (e : Event) : Report Unit := modify fun events => events.push e

/-- A check that may refuse to go on. -/
def check {α : Type} (x : Except Error α) : Report α :=
  match x with
  | .ok a => pure a
  | .error e => throw e

end Report

/-- The labels of the pads `0`, `1`, … of nodes, in the order of the nodes. -/
structure Labelling where
  /-- The nodes, each with its labels. -/
  rows : List (Nat × List Label)

namespace Labelling

/-- The labels of the pads of a node; none for a node that is not there. -/
def outputs (l : Labelling) (node : Nat) : List Label :=
  ((l.rows.find? fun row => row.1 == node).map Prod.snd).getD []

/-- The label of an endpoint. -/
def labelOf (l : Labelling) : Endpoint → Except Error Label
  | .external label => .ok label
  | .pad p =>
    match (l.outputs p.node)[p.index]? with
    | some label => .ok label
    | none => .error (.internal (.unrequestedPad p.index p.node))

/-- Labels for the pads of `node` at the positions in the list: `explicit` gives those that were
asked for, the supply the others. -/
def assignPads (node : Nat) (explicit : Nat → Option Label) :
    List Nat → LabelSupply → Report (List Label × LabelSupply)
  | [], supply => return ([], supply)
  | index :: rest, supply =>
    match explicit index with
    | some label => do
      let (labels, supply) ← assignPads node explicit rest supply
      return (label :: labels, supply)
    | none => do
      let (label, supply) := supply.next
      let label ← Report.check label
      Report.emit (.labelled node index label)
      let (labels, supply) ← assignPads node explicit rest supply
      return (label :: labels, supply)

/-- The label under which a pad was asked for, from the list of all pads of its node that were. -/
def explicitLabel (pads : List (Nat × Option Label)) (index : Nat) : Option Label :=
  (pads.find? fun e => e.1 == index).bind Prod.snd

/-- Labels for all pads of `node` up to the highest that was asked for. -/
def assignNode (g : Graph) (node : Nat) (supply : LabelSupply) :
    Report (List Label × LabelSupply) :=
  let pads := g.requestedPads node
  match pads.getLast? with
  | none => throw (.internal (.unrequestedNode node))
  | some (highest, _) =>
    assignPads node (explicitLabel pads) (List.range (highest + 1)) supply

/-- Labels for the pads of the nodes in the list, in its order. -/
def assignNodes (g : Graph) : List Nat → LabelSupply → Report (List (Nat × List Label))
  | [], _ => return []
  | node :: rest, supply => do
    let (labels, supply) ← assignNode g node supply
    let rows ← assignNodes g rest supply
    return (node, labels) :: rows

/-- The label of an endpoint outside the graph. -/
def externalLabel? : Endpoint → Option Label
  | .external l => some l
  | .pad _ => none

/-- The labels that occur in a compilation of `nodes` and so are not free: those of endpoints
outside the graph that are read by a node or are among `terminals`, and those under which pads of
the nodes were asked for. -/
def usedLabels (g : Graph) (nodes : List Node) (terminals : List Endpoint) : List Label :=
  (nodes.flatMap Node.inputs ++ terminals).filterMap externalLabel? ++
    nodes.flatMap fun n => (g.requestedPads n.id).filterMap Prod.snd

/-- The supply of a compilation. -/
def supply (g : Graph) (nodes : List Node) (terminals : List Endpoint) (settings : Settings) :
    LabelSupply :=
  (usedLabels g nodes terminals).foldl LabelSupply.reserve
    (.start settings.stem settings.first)

/-- The labelling of `nodes` in their order. -/
def assign (g : Graph) (nodes : List Node) (terminals : List Endpoint) (settings : Settings) :
    Report Labelling := do
  let rows ← assignNodes g (nodes.map Node.id) (supply g nodes terminals settings)
  return ⟨rows⟩

end Labelling

end MediaGraph
