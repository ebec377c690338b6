import MediaGraph.Node

/-!
# Events

Building and compiling report what they do, in the order in which they do it. A report is a span,
which stands for an activity that begins, or an event with a message; each has a level and named
fields.

## Main definitions

* `MediaGraph.Event` — what is reported.
* `Event.isSpan`, `Event.level`, `Event.text`, `Event.fields` — how a report is written.
-/

set_option autoImplicit false

namespace MediaGraph

/-- What is reported. -/
inductive Event where
  /-- A node was made, with so many inputs. -/
  | built (node : Nat) (filter : String) (arity : Arity) (inputs : Nat)
  /-- A compilation of so many terminals began. -/
  | compiling (terminals : Nat)
  /-- A pad without a label of its own got one. -/
  | labelled (node pad : Nat) (label : Label)
  /-- A compilation ended with so many nodes and an expression of so many bytes. -/
  | compiled (nodes bytes : Nat)
  deriving DecidableEq

namespace Event

/-- Whether a report stands for an activity that begins. -/
def isSpan : Event → Bool
  | .compiling _ => true
  | _ => false

/-- The level of a report: every label is a detail below the rest. -/
def level : Event → String
  | .labelled _ _ _ => "TRACE"
  | _ => "DEBUG"

/-- The message of an event, the name of a span. -/
def text : Event → String
  | .built _ _ _ _ => "built filter node"
  | .compiling _ => "compile_graph"
  | .labelled _ _ _ => "assigned label"
  | .compiled _ _ => "compiled filter graph"

/-- The fields of a report, by ascending name. -/
def fields : Event → List (String × String)
  | .built node filter arity inputs =>
    [("arity", arity.describe), ("filter", filter), ("inputs", toString inputs),
      ("node", nodeName node)]
  | .compiling terminals => [("terminals", toString terminals)]
  | .labelled node pad label =>
    [("label", label.text), ("node", nodeName node), ("pad", toString pad)]
  | .compiled nodes bytes => [("len", toString bytes), ("nodes", toString nodes)]

end Event

end MediaGraph
