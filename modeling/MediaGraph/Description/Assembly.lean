import MediaGraph.Description
import MediaGraph.Graph.Construction

/-!
# Building what is described

A description is built into a graph in its own order: first the sources, then the nodes, each with
the pads it reads and the pads it is asked for at once, then the streams that the graph ends in.
A pad counts as asked for as soon as a reference names it.

## Main definitions

* `MediaGraph.Description.Scope` — the streams and nodes that references can name.
* `MediaGraph.Description.build` — builds a description and answers with its terminals.
-/

set_option autoImplicit false

namespace MediaGraph.Description

/-- What references can name. -/
structure Scope where
  /-- The sources by label. -/
  sources : List (String × Stream)
  /-- The nodes by name. -/
  nodes : List (String × Handle)

namespace Scope

/-- The stream that a reference names. -/
def resolve (scope : Scope) (r : String) : Edit Stream :=
  match scope.sources.lookup r with
  | some s => return s
  | none => do
    let reference ← Edit.check (readReference r)
    match scope.nodes.lookup reference.id with
    | some handle => Edit.request handle.node none (some reference.pad)
    | none => throw (.invalid (.unknownReference r))

/-- The streams that references name, one after the other. -/
def resolveAll (scope : Scope) : List String → Edit (List Stream)
  | [] => return []
  | r :: rest => do
    let s ← scope.resolve r
    let ss ← scope.resolveAll rest
    return s :: ss

end Scope

/-- Asks for the streams of sources, one after the other. -/
def addSources : List Label → Edit (List (String × Stream))
  | [] => return []
  | l :: rest => do
    let s ← Edit.source l.text
    let ss ← addSources rest
    return (l.text, s) :: ss

/-- Asks a node for output pads, one after the other. -/
def addOutputs (node : Nat) : List OutputEntry → Edit Unit
  | [] => return ()
  | o :: rest => do
    let _ ← Edit.request node o.label (some o.pad)
    addOutputs node rest

/-- The arity of a node: a fixed number of inputs or any. -/
def NodeEntry.requiredArity (n : NodeEntry) : Arity :=
  match n.arity with
  | some count => .exact count
  | none => .any

/-- Builds one node and asks for its outputs. -/
def addNode (scope : Scope) (n : NodeEntry) : Edit Handle := do
  let inputs ← scope.resolveAll n.inputs
  let handle ← Edit.addNode inputs n.filter n.requiredArity ⟨n.args, n.options⟩
  addOutputs handle.node n.outputs
  return handle

/-- Builds nodes one after the other; each can be named by those behind it. -/
def addNodes : Scope → List NodeEntry → Edit Scope
  | scope, [] => return scope
  | scope, n :: rest => do
    let handle ← addNode scope n
    addNodes { scope with nodes := (n.id, handle) :: scope.nodes } rest

/-- Builds what is described and answers with the streams that it ends in. -/
def build (d : Description) : Edit (List Stream) := do
  Edit.check d.validate
  let sources ← addSources d.sources
  let scope ← addNodes ⟨sources, []⟩ d.nodes
  scope.resolveAll d.outputs

end MediaGraph.Description
