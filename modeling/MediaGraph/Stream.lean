import MediaGraph.Node

/-!
# Streams and handles

A stream is what callers hold: an endpoint of one graph and what may still be done with it. A
handle stands for a node whose outputs can be asked for. Both are plain values, so holding one
never changes a graph.

## Main definitions

* `MediaGraph.Capability` — what may still be done with a stream.
* `MediaGraph.Stream` — a stream; `Stream.require` refuses an action it is not fit for.
* `MediaGraph.Handle` — a node of a graph.
-/

set_option autoImplicit false

namespace MediaGraph

/-- What may still be done with a stream. -/
inductive Capability where
  /-- It may feed filters and may end a graph. -/
  | filterable
  /-- It may only end a graph. -/
  | sinkOnly
  deriving DecidableEq, Repr

namespace Capability

/-- The word for a capability in messages. -/
def name : Capability → String
  | .filterable => "filterable"
  | .sinkOnly => "sink-only"

/-- The word for a capability in the display of a stream. -/
def describe : Capability → String
  | .filterable => "Filterable"
  | .sinkOnly => "SinkOnly"

/-- Whether a stream with the capability `c` is fit for what needs `wanted`: every stream can end
a graph, only a filterable one can feed a filter. -/
def meets (c wanted : Capability) : Bool :=
  match wanted, c with
  | .filterable, .sinkOnly => false
  | _, _ => true

end Capability

/-- A stream: an endpoint of the graph with the number `graph`. -/
structure Stream where
  /-- The number of the graph. -/
  graph : Nat
  /-- Where the stream comes from. -/
  endpoint : Endpoint
  /-- What may still be done with it. -/
  capability : Capability
  deriving DecidableEq

namespace Stream

/-- Refuses `action` unless the stream has the capability that it needs. -/
def require (s : Stream) (wanted : Capability) (action : String) : Except Error Unit :=
  if s.capability.meets wanted then .ok ()
  else .error (.incompatibleStream action wanted.name s.capability.name)

/-- The same stream, fit only to end a graph. -/
def sink (s : Stream) : Stream := ⟨s.graph, s.endpoint, .sinkOnly⟩

/-- The display of a stream. -/
def describe (s : Stream) : String :=
  "Stream \x7b source: " ++ s.endpoint.describe ++ ", capability: " ++ s.capability.describe ++
    " \x7d"

end Stream

/-- A node of the graph with the number `graph`. -/
structure Handle where
  /-- The number of the graph. -/
  graph : Nat
  /-- The number of the node. -/
  node : Nat
  deriving DecidableEq

namespace Handle

/-- The display of a handle. -/
def describe (h : Handle) : String :=
  "NodeHandle \x7b id: NodeId(" ++ toString h.node ++ ") \x7d"

end Handle

end MediaGraph
