import MediaGraph.Event
import MediaGraph.Stream

/-!
# Graphs

A graph holds its nodes in the order of their construction, every output pad that was asked for
with the label it was asked for under, and the owner of every label. It only ever grows.

## Main definitions

* `MediaGraph.Graph` — a graph.
* `Graph.node?`, `Graph.pads`, `Graph.owners`, `Graph.requestedPads`, `Graph.labelOf?` — what a
  graph holds.
* `Graph.bind`, `Graph.source`, `Graph.request` — naming a stream, and asking for a stream from
  outside or from an output pad. Each either answers with the grown graph or refuses.
-/

set_option autoImplicit false

namespace MediaGraph

/-- A graph. -/
structure Graph where
  /-- The number that tells this graph from others. -/
  id : Nat
  /-- The nodes; each stands at the place of its number. -/
  nodes : Array Node
  /-- The output pads that were asked for, with the labels they were asked for under. -/
  pads : SortedMap Pad (Option Label)
  /-- The endpoint that each label names. -/
  owners : SortedMap Label Endpoint

namespace Graph

/-- The graph with the number `id` before anything is built. -/
def empty (id : Nat) : Graph := ⟨id, #[], ∅, ∅⟩

/-- The node with a number. -/
def node? (g : Graph) (id : Nat) : Option Node := g.nodes[id]?

/-- The output pads of a node that were asked for, by ascending position, with their labels. -/
def requestedPads (g : Graph) (node : Nat) : List (Nat × Option Label) :=
  (g.pads.toList.filter fun e => e.1.node == node).map fun e => (e.1.index, e.2)

/-- The label that a stream from an endpoint has by now: that of an endpoint outside is its name,
a pad has one if it was asked for under one. -/
def labelOf? (g : Graph) : Endpoint → Option Label
  | .external l => some l
  | .pad p => (g.pads.find? p).join

/-- The display of a graph: its size. -/
def describe (g : Graph) : String :=
  "FilterGraph \x7b nodes: " ++ toString g.nodes.size ++ ", pads: " ++ toString g.pads.size ++
    " \x7d"

/-- Reads a label. -/
def readLabel (text : String) : Except Error Label :=
  match Label.ofText text with
  | .ok l => .ok l
  | .error d => .error (.ofDefect text d)

/-- Refuses a label that already names something. -/
def checkFree (g : Graph) (label : Label) : Except Error Unit :=
  if g.owners.contains label then .error (.duplicateLabel label.text) else .ok ()

/-- Lets a label name an endpoint. It may name that endpoint already, but no other. -/
def bind (g : Graph) (label : Label) (owner : Endpoint) : Except Error Graph :=
  match g.owners.find? label with
  | some existing => if existing = owner then .ok g else .error (.duplicateLabel label.text)
  | none => .ok { g with owners := g.owners.insert label owner }

/-- The stream from outside under a label. Asking again gives the same stream. -/
def source (g : Graph) (text : String) : Except Error (Stream × Graph) := do
  let label ← readLabel text
  let g ← g.bind label (.external label)
  return (⟨g.id, .external label, .filterable⟩, g)

/-- Reads the label of a request, if it has one. -/
def readOptionalLabel : Option String → Except Error (Option Label)
  | none => .ok none
  | some text => (readLabel text).map some

/-- The graph after the pad `p` was asked for under `label`. The first request settles the label
of a pad; a later one must name no label or the same. -/
def requestPad (g : Graph) (p : Pad) (label : Option Label) : Except Error Graph :=
  match g.pads.find? p, label with
  | some existing, some requested =>
    if existing = some requested then .ok g
    else .error (.labelConflict requested.text ((existing.map Label.text).getD ""))
  | some _, none => .ok g
  | none, some requested => do
    let g ← g.bind requested (.pad p)
    return { g with pads := g.pads.insert p (some requested) }
  | none, none => .ok { g with pads := g.pads.insert p none }

/-- The stream from an output pad of a node, under a label or not; without a position it is the
pad 0. -/
def request (g : Graph) (node : Nat) (label : Option String) (pad : Option Nat) :
    Except Error (Stream × Graph) := do
  let index := pad.getD 0
  if padLimit ≤ index then
    throw (.invalid (.padBeyondLimit index node))
  let label ← readOptionalLabel label
  let g ← g.requestPad ⟨node, index⟩ label
  return (⟨g.id, .pad ⟨node, index⟩, .filterable⟩, g)

end Graph

end MediaGraph
