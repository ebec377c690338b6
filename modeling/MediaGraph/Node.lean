import MediaGraph.Arguments

/-!
# Nodes

A node is one filter of a graph together with what it reads and the arguments it was given. It
reads streams from outside the graph, which are named by labels, and output pads of other nodes.
A node never changes once it is made.

## Main definitions

* `MediaGraph.Pad` — an output pad of a node.
* `MediaGraph.Endpoint` — where a stream comes from: from outside or from a pad.
* `MediaGraph.Arity` — the number of inputs a node asks for.
* `MediaGraph.Node` — a node; `Node.make` checks the name of the filter and the arity.
-/

set_option autoImplicit false

namespace MediaGraph

/-- An output pad: the node and the position of the pad on it. -/
structure Pad where
  /-- The node. -/
  node : Nat
  /-- The position. -/
  index : Nat
  deriving DecidableEq, Repr

namespace Pad

/-- Pads are ordered by node, those of one node by position. -/
instance : Ord Pad := ⟨compareLex (compareOn node) (compareOn index)⟩

instance : Std.TransOrd Pad :=
  inferInstanceAs (Std.TransCmp (compareLex (compareOn node) (compareOn index)))

instance : Std.LawfulEqOrd Pad where
  eq_of_compare {a b} h := by
    have same : (compareOn node a b).then (compareOn index a b) = .eq := h
    simp only [compareOn, Ordering.then_eq_eq, Std.compare_eq_iff_eq] at same
    cases a
    cases b
    simp_all

end Pad

/-- Where a stream comes from. -/
inductive Endpoint where
  /-- From outside the graph, under a label. -/
  | external (label : Label)
  /-- From an output pad. -/
  | pad (pad : Pad)
  deriving DecidableEq

namespace Endpoint

/-- The node that a stream comes from, if it comes from one. -/
def node? : Endpoint → Option Nat
  | .external _ => none
  | .pad p => some p.node

/-- Endpoints outside come before pads; each kind has its own order. -/
instance : Ord Endpoint where
  compare
    | .external a, .external b => compare a b
    | .external _, .pad _ => .lt
    | .pad _, .external _ => .gt
    | .pad a, .pad b => compare a b

/-- The endpoints in ascending order. -/
def sort (endpoints : List Endpoint) : List Endpoint :=
  endpoints.mergeSort fun a b => (compare a b).isLE

/-- The text of an endpoint in the display of a stream. -/
def describe : Endpoint → String
  | .external l => "External(Label(\"" ++ l.text ++ "\"))"
  | .pad p =>
    "Pad(PadRef \x7b node: NodeId(" ++ toString p.node ++ "), pad: Pad(" ++ toString p.index ++
      ") \x7d)"

end Endpoint

/-- The number of inputs that a node asks for. -/
inductive Arity where
  /-- So many and no others. -/
  | exact (count : Nat)
  /-- Any number, also none. -/
  | any
  deriving DecidableEq, Repr

namespace Arity

/-- Whether `count` inputs are what is asked for. -/
def accepts (a : Arity) (count : Nat) : Bool :=
  match a with
  | .exact n => n == count
  | .any => true

/-- The text of an arity in events. -/
def describe : Arity → String
  | .exact n => "Exact(" ++ toString n ++ ")"
  | .any => "Variable"

end Arity

/-- One filter of a graph. -/
structure Node where
  /-- The number of the node, in the order of construction. -/
  id : Nat
  /-- The name of the filter. -/
  filter : String
  /-- What the node reads, in the order of its inputs. -/
  inputs : List Endpoint
  /-- The number of inputs that was asked for. -/
  arity : Arity
  /-- The arguments of the filter. -/
  arguments : Arguments

namespace Node

/-- The nodes that a node reads from, once for each input. -/
def feeders (n : Node) : List Nat := n.inputs.filterMap Endpoint.node?

/-- Whether the expression needs a character for itself, so that no filter name may hold it. -/
def isReserved (c : Char) : Bool :=
  Text.isBlank c || c == '[' || c == ']' || c == ';' || c == ',' || c == '=' || c == ':'

/-- What is wrong with a name of a filter: that it is blank, or its first reserved character. -/
def nameProblem? (filter : String) : Option Invalid :=
  if Text.trim filter.toList = [] then some .emptyFilterName
  else (filter.toList.find? isReserved).map fun c => .reservedCharacter filter c

/-- The node with the given parts, if its name is in order and its inputs are as many as it asks
for. -/
def make (id : Nat) (filter : String) (inputs : List Endpoint) (arity : Arity)
    (arguments : Arguments) : Except Error Node :=
  match nameProblem? filter, arity with
  | some problem, _ => .error (.invalid problem)
  | none, .exact n =>
    if n = inputs.length then .ok ⟨id, filter, inputs, .exact n, arguments⟩
    else .error (.arityMismatch filter id n inputs.length)
  | none, .any => .ok ⟨id, filter, inputs, .any, arguments⟩

end Node

end MediaGraph
