import MediaGraph.Arguments

/-!
# Descriptions of graphs

A description lists the sources of a graph, its nodes in the order of their construction, and the
streams that the graph ends in. Streams are referred to by texts: the label of a source, or the
name of an earlier node, with a pad behind a colon if it is not the pad 0. Names serve only the
references.

## Main definitions

* `MediaGraph.Description` — a description, with its parts `NodeEntry` and `OutputEntry`.
* `MediaGraph.Description.Reference` — the node and the pad of a reference; `readReference`
  reads one.
* `Description.validate` — the rules for names and references.
-/

set_option autoImplicit false

namespace MediaGraph

namespace Description

/-- An output pad that a node is asked for, under a label or not. -/
structure OutputEntry where
  /-- The position of the pad. -/
  pad : Nat
  /-- The label. -/
  label : Option String
  deriving DecidableEq

/-- A node of a description. -/
structure NodeEntry where
  /-- The name by which other parts of the description refer to the node. -/
  id : String
  /-- The name of the filter. -/
  filter : String
  /-- References to what the node reads. -/
  inputs : List String
  /-- The number of inputs, if it is fixed. -/
  arity : Option Nat
  /-- The arguments by position. -/
  args : List Value
  /-- The options by key. -/
  options : SortedMap String Value
  /-- The output pads that the node is asked for at once. -/
  outputs : List OutputEntry

end Description

/-- A description of a graph. -/
structure Description where
  /-- The labels of the streams that come from outside. -/
  sources : List Label
  /-- The nodes, in the order of their construction. -/
  nodes : List Description.NodeEntry
  /-- References to the streams that the graph ends in. -/
  outputs : List String

namespace Description

/-- A reference to an output pad of a named node. -/
structure Reference where
  /-- The name of the node. -/
  id : String
  /-- The position of the pad. -/
  pad : Nat
  deriving DecidableEq

/-- The parts of a text before and behind its last colon, if it has one. -/
def splitLastColon (cs : List Char) : Option (List Char × List Char) :=
  match cs.reverse.dropWhile (· != ':') with
  | [] => none
  | _ :: front => some (front.reverse, (cs.reverse.takeWhile (· != ':')).reverse)

/-- Reads a reference that is not the label of a source. Behind the last colon stands the pad;
without a colon it is the pad 0. -/
def readReference (r : String) : Except Error Reference :=
  match splitLastColon r.toList with
  | none => .ok ⟨r, 0⟩
  | some (front, back) =>
    match Numeral.natural? back with
    | some pad =>
      if pad ≤ Width.max32 then .ok ⟨String.ofList front, pad⟩
      else .error (.invalid (.badPad r))
    | none => .error (.invalid (.badPad r))

/-- Refuses a reference that is neither the label of a source nor one to a node in `ids`. -/
def checkReference (sources : List String) (ids : List String) (r : String) :
    Except Error Unit := do
  if sources.contains r then
    return
  let reference ← readReference r
  if ids.contains reference.id then
    return
  throw (.invalid (.unknownReference r))

/-- Checks references one after the other. -/
def checkReferences (sources : List String) (ids : List String) :
    List String → Except Error Unit
  | [] => .ok ()
  | r :: rest => do
    checkReference sources ids r
    checkReferences sources ids rest

/-- Checks one node behind nodes with the names `ids`. -/
def checkNode (sources : List String) (ids : List String) (n : NodeEntry) : Except Error Unit := do
  if n.id = "" ∨ n.id.toList.contains ':' then
    throw (.invalid (.badNodeId n.id))
  if sources.contains n.id then
    throw (.invalid (.shadowingNodeId n.id))
  checkReferences sources ids n.inputs
  if ids.contains n.id then
    throw (.invalid (.duplicateNodeId n.id))

/-- Checks nodes one after the other, behind nodes with the names `ids`. -/
def checkNodes (sources : List String) : List String → List NodeEntry → Except Error Unit
  | _, [] => .ok ()
  | ids, n :: rest => do
    checkNode sources ids n
    checkNodes sources (n.id :: ids) rest

/-- Refuses a description whose names or references are not in order: a node has a name of its
own without a colon, which is not the label of a source, and reads only from sources and from
nodes before it. -/
def validate (d : Description) : Except Error Unit := do
  let sources := d.sources.map Label.text
  checkNodes sources [] d.nodes
  checkReferences sources (d.nodes.map NodeEntry.id) d.outputs

end Description

end MediaGraph
